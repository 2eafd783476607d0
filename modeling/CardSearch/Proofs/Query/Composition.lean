import CardSearch.Proofs.Query.Boundaries
import CardSearch.Proofs.Query.Steps

/-!
# Queries put together from texts

A text that can be read on its own is read in parentheses as it is alone, wherever they stand: the
group acts as a single term. So texts in parentheses side by side make the conjunction of their
queries, the word `or` between such rows the disjunction, and a minus sign a denial.
-/

namespace CardSearch

namespace PropertySet

theorem union_empty (s : PropertySet) : s ∪ ∅ = s := by
  ext p
  simp

theorem union_assoc (s t u : PropertySet) : s ∪ t ∪ u = s ∪ (t ∪ u) := by
  ext p
  simp [or_assoc]

private theorem mem_unions {p : Property} {sets : List PropertySet} :
    p ∈ unions sets ↔ ∃ s ∈ sets, p ∈ s := by
  have hfold (found : PropertySet) :
      p ∈ sets.foldl (· ∪ ·) found ↔ p ∈ found ∨ ∃ s ∈ sets, p ∈ s := by
    induction sets generalizing found with
    | nil => simp
    | cons s sets ih => simp [ih, or_assoc]
  simpa [unions] using hfold ∅

theorem unions_cons (s : PropertySet) (sets : List PropertySet) :
    unions (s :: sets) = s ∪ unions sets := by
  ext p
  simp [mem_unions]

end PropertySet

namespace OpenGroup

def behind (n : Nat) (g : OpenGroup) : OpenGroup := { g with negations := n }

theorem endAlternative_behind (n : Nat) (g : OpenGroup) :
    (g.behind n).endAlternative = g.endAlternative.behind n := by
  unfold endAlternative behind
  cases Condition.collapse .all g.conjuncts.reverse <;> rfl

private theorem condition?_behind (n : Nat) (g : OpenGroup) :
    (g.behind n).condition? = g.condition? := by
  rw [condition?, condition?, endAlternative_behind]
  rfl

end OpenGroup

namespace QueryReader

/-- The innermost group and those around it when a text stands in parentheses: its outermost group
is behind minus signs and has other groups around it. -/
def nest (n : Nat) (around : List OpenGroup) : OpenGroup → List OpenGroup → OpenGroup × List OpenGroup
  | g, [] => (g.behind n, around)
  | g, h :: outer => (g, (nest n around h outer).1 :: (nest n around h outer).2)

section Nest

variable (n : Nat) (around : List OpenGroup) (g : OpenGroup) (outer : List OpenGroup)

theorem nest_push (c : Condition) : nest n around (g.push c) outer =
    ((nest n around g outer).1.push c, (nest n around g outer).2) := by
  cases outer <;> rfl

private theorem nest_endAlternative : nest n around g.endAlternative outer =
    ((nest n around g outer).1.endAlternative, (nest n around g outer).2) := by
  cases outer with
  | nil => rw [nest, nest, OpenGroup.endAlternative_behind]
  | cons h outer => rfl

end Nest

def within (base r : QueryReader) : QueryReader where
  properties := base.properties ∪ r.properties
  negations := r.negations
  group := (nest base.negations (base.group :: base.outer) r.group r.outer).1
  outer := (nest base.negations (base.group :: base.outer) r.group r.outer).2

variable {base r r' : QueryReader}

private theorem step_opening (base : QueryReader) : base.step .opening = some (base.within {}) := by
  simp only [step, within, nest, PropertySet.union_empty]
  rfl

private theorem within_push (c : Condition) : base.within (r.push c) = (base.within r).push c := by
  simp only [within, push, nest_push]

/-- A step within parentheses is the step of the text alone. -/
theorem step_within {t : Token} (h : r.step t = some r') :
    (base.within r).step t = some (base.within r') := by
  cases t with
  | term t =>
    cases h
    rw [within_push]
    simp only [step, within, PropertySet.union_assoc]
  | minus =>
    cases h
    rfl
  | or =>
    cases h
    simp only [step, within, nest_endAlternative]
  | opening =>
    cases h
    rfl
  | closing =>
    simp only [step] at h
    split at h
    · cases h
    · next g outer houter =>
      simp only [step, within, houter, nest]
      split at h
      · cases h
        rfl
      · next c _ =>
        cases h
        simp only [push, nest_push]

private theorem steps_within {ts : List Token} (h : r.steps ts = some r') :
    (base.within r).steps ts = some (base.within r') := by
  induction ts generalizing r with
  | nil =>
    cases h
    rfl
  | cons t ts ih =>
    obtain ⟨next, hnext, hsteps⟩ := Option.bind_eq_some_iff.1 (steps_cons .. ▸ h)
    rw [steps_cons, step_within hnext]
    exact ih hsteps

theorem step_closing_within {c : Condition} (houter : r.outer = [])
    (hc : r.group.condition? = some c) :
    (base.within r).step .closing = base.step (.term ⟨c, r.properties⟩) := by
  simp only [step, within, houter, nest, OpenGroup.condition?_behind, hc]
  rfl

end QueryReader

/-- Reading a text ends with all groups closed and with a condition. There are no quotes in the
text, which might pair up with quotes behind it. -/
structure Query.Good (names : Dict Subset) (s : String) : Prop where
  unquoted : Term.Unquoted s.toList
  complete : ∃ r c, QueryReader.steps {} (Token.scanAll names false s.toList) = some r ∧
    r.outer = [] ∧ r.group.condition? = some c

def Query.asTerm (names : Dict Subset) (s : String) : Term :=
  ⟨(Query.read names s).condition, (Query.read names s).properties⟩

def Token.rowOf (names : Dict Subset) (ss : List String) : List Token :=
  ss.map fun s => .term (Query.asTerm names s)

namespace QueryReader

variable {names : Dict Subset} {s : String}

theorem steps_grouped (h : Query.Good names s) (base : QueryReader) (ts : List Token) :
    base.steps (.opening :: Token.scanAll names false s.toList ++ .closing :: ts) =
      base.steps (.term (Query.asTerm names s) :: ts) := by
  obtain ⟨r, c, hr, houter, hc⟩ := h.complete
  have hread : Query.asTerm names s = ⟨c, r.properties⟩ := by
    have hread : Query.read names s = ⟨r.properties, c⟩ := by
      rw [Query.read, run_of_steps hr, finish, houter]
      simp [hc]
    rw [Query.asTerm, hread]
  rw [List.cons_append, steps_cons, step_opening, Option.bind_some, steps_append, steps_within hr,
    Option.bind_some, steps_cons, step_closing_within houter hc, steps_cons, hread]

end QueryReader

/-- A text in parentheses. -/
def grouped (s : String) : String := "(" ++ s ++ ")"

/-- Texts in parentheses, with a blank between them. -/
def sideBySide (ss : List String) : String := " ".intercalate (ss.map grouped)

/-- The word that parts alternatives, in any case. -/
def orWords : List String := ["or", "oR", "Or", "OR"]

/-- A further row of texts in parentheses, after the word before it. -/
def furtherRow (row : String × List String) : String := " " ++ row.1 ++ " " ++ sideBySide row.2

/-- Rows of texts in parentheses; each row but the first comes with the word before it. -/
def rowsOfTexts (first : List String) (others : List (String × List String)) : String :=
  sideBySide first ++ String.join (others.map furtherRow)

namespace Token

variable {names : Dict Subset} {s : String}

theorem scanAll_grouped (h : Term.Unquoted s.toList) (operand : Bool) (after : List Char) :
    scanAll names operand ((grouped s).toList ++ after) =
      opening :: scanAll names false s.toList ++ closing :: scanAll names false after := by
  have htext : (grouped s).toList ++ after = '(' :: (s.toList ++ ')' :: after) := by
    simp [grouped]
  have hboundary : Term.atBoundary (')' :: after) = true := rfl
  rw [htext, scanAll_opening, scanAll_append hboundary false h, scanAll_closing, List.cons_append]

private theorem scanAll_orWord {word : String} (h : word ∈ orWords) (after : List Char) :
    scanAll names false (' ' :: (word.toList ++ ' ' :: after)) = or :: scanAll names false after := by
  have hblank (rest : List Char) : scanAll names false (' ' :: rest) = scanAll names false rest :=
    scanAll_blank rfl (by decide) rest
  simp only [orWords, List.mem_cons, List.not_mem_nil, or_false] at h
  rcases h with rfl | rfl | rfl | rfl
  all_goals
    rw [hblank]
    exact (scanAll_or rfl).trans (congrArg _ (hblank after))

end Token

namespace QueryReader

variable {names : Dict Subset}

open Query (Good asTerm)

theorem steps_congr_tail {us vs : List Token} (h : ∀ r : QueryReader, r.steps us = r.steps vs)
    (base : QueryReader) (ts : List Token) : base.steps (ts ++ us) = base.steps (ts ++ vs) := by
  rw [steps_append, steps_append, funext h]

/-- Good texts in parentheses are read as a term each. -/
theorem steps_sideBySide {ss : List String} (hne : ss ≠ []) (h : ∀ s ∈ ss, Query.Good names s)
    (base : QueryReader) (after : List Char) :
    base.steps (Token.scanAll names false ((sideBySide ss).toList ++ after)) =
      base.steps (Token.rowOf names ss ++ Token.scanAll names false after) := by
  induction ss generalizing base with
  | nil => exact absurd rfl hne
  | cons s ss ih =>
    obtain ⟨hs, hss⟩ := List.forall_mem_cons.1 h
    cases ss with
    | nil =>
      rw [sideBySide, List.map_singleton, String.intercalate_singleton,
        Token.scanAll_grouped hs.unquoted, steps_grouped hs]
      rfl
    | cons s' ss =>
      have htext : (sideBySide (s :: s' :: ss)).toList ++ after =
          (grouped s).toList ++ ' ' :: ((sideBySide (s' :: ss)).toList ++ after) := by
        simp [sideBySide, String.intercalate_cons_cons]
      rw [htext, Token.scanAll_grouped hs.unquoted, steps_grouped hs,
        Token.scanAll_blank rfl (by decide)]
      exact steps_congr_tail (ih (by simp) hss) base [.term (Query.asTerm names s)]

/-- Further rows of good texts are read as the word `or` and the terms of the texts. -/
theorem steps_furtherRows {others : List (String × List String)}
    (hothers : ∀ row ∈ others, row.1 ∈ orWords ∧ row.2 ≠ [])
    (h : ∀ row ∈ others, ∀ s ∈ row.2, Query.Good names s) (base : QueryReader) :
    base.steps (Token.scanAll names false (String.join (others.map furtherRow)).toList) =
      base.steps (others.flatMap fun row => .or :: Token.rowOf names row.2) := by
  induction others generalizing base with
  | nil =>
    have hnil : (String.join ([].map furtherRow)).toList = [] := rfl
    rw [hnil, Token.scanAll, if_neg (by decide), List.flatMap_nil]
  | cons row others ih =>
    obtain ⟨⟨hword, hne⟩, hothers⟩ := List.forall_mem_cons.1 hothers
    obtain ⟨hgood, h⟩ := List.forall_mem_cons.1 h
    have htext : (String.join ((row :: others).map furtherRow)).toList =
        ' ' :: (row.1.toList ++ ' ' :: ((sideBySide row.2).toList ++
          (String.join (others.map furtherRow)).toList)) := by
      simp [furtherRow, String.join_cons]
    rw [htext, Token.scanAll_orWord hword, List.flatMap_cons]
    calc base.steps (.or :: Token.scanAll names false ((sideBySide row.2).toList ++
            (String.join (others.map furtherRow)).toList))
        = base.steps (.or :: Token.rowOf names row.2 ++
            Token.scanAll names false (String.join (others.map furtherRow)).toList) :=
          steps_congr_tail (fun r => steps_sideBySide hne hgood r _) base [.or]
      _ = base.steps (.or :: Token.rowOf names row.2 ++
            others.flatMap fun row => .or :: Token.rowOf names row.2) :=
          steps_congr_tail (ih hothers h) base _

end QueryReader

def Condition.joined (join : List Condition → Condition) : List Condition → Condition
  | [c] => c
  | cs => join cs

theorem Condition.collapse_eq_joined (join : List Condition → Condition) {cs : List Condition}
    (h : cs ≠ []) : collapse join cs = some (joined join cs) := by
  match cs, h with
  | [c], _ => rfl
  | c :: c' :: cs, _ => rfl

namespace Query

/-- The conjunction of the conditions of texts. -/
def rowCondition (names : Dict Subset) (ss : List String) : Condition :=
  .joined .all (ss.map fun s => (read names s).condition)

def rowProperties (names : Dict Subset) (ss : List String) : PropertySet :=
  PropertySet.unions (ss.map fun s => (read names s).properties)

end Query

namespace OpenGroup

def conditions (g : OpenGroup) : List Condition := g.endAlternative.alternatives.reverse

theorem condition?_eq {g : OpenGroup} (h : g.conditions ≠ []) :
    g.condition? = some (Condition.joined .any g.conditions) :=
  Condition.collapse_eq_joined .any h

theorem conjuncts_endAlternative (g : OpenGroup) : g.endAlternative.conjuncts = [] := by
  unfold endAlternative
  split
  · next hnone =>
    cases hconjuncts : g.conjuncts.reverse with
    | nil => exact List.reverse_eq_nil_iff.1 hconjuncts
    | cons c cs =>
      rw [hconjuncts, Condition.collapse_eq_joined _ (by simp)] at hnone
      cases hnone
  · rfl

end OpenGroup

namespace QueryReader

variable {names : Dict Subset} {r : QueryReader}

def withRow (names : Dict Subset) (r : QueryReader) (ss : List String) : QueryReader :=
  { r with
    properties := r.properties ∪ Query.rowProperties names ss
    group := { r.group with
      conjuncts := (ss.map fun s => (Query.read names s).condition).reverse ++
        r.group.conjuncts } }

theorem steps_row (h : r.negations = 0) (ss : List String) :
    r.steps (Token.rowOf names ss) = some (r.withRow names ss) := by
  induction ss generalizing r with
  | nil =>
    change some r = some { r with properties := r.properties ∪ ∅ }
    rw [PropertySet.union_empty]
  | cons s ss ih =>
    have hstep : r.step (.term (Query.asTerm names s)) = some { r with
        properties := r.properties ∪ (Query.read names s).properties
        negations := 0
        group := r.group.push (Query.read names s).condition } := by
      rw [step, push, h]
      rfl
    have hrow : Token.rowOf names (s :: ss) =
        .term (Query.asTerm names s) :: Token.rowOf names ss := rfl
    rw [hrow, steps_cons, hstep, Option.bind_some, ih rfl]
    simp [withRow, OpenGroup.push, Query.rowProperties, PropertySet.unions_cons,
      PropertySet.union_assoc, h]

theorem conditions_withRow (h : r.group.conjuncts = []) {ss : List String} (hne : ss ≠ []) :
    (r.withRow names ss).group.conditions =
      r.group.alternatives.reverse ++ [Query.rowCondition names ss] := by
  have hne : (ss.map fun s => (Query.read names s).condition) ≠ [] := by simpa using hne
  simp only [withRow, OpenGroup.conditions, OpenGroup.endAlternative, h, List.append_nil,
    List.reverse_reverse, Condition.collapse_eq_joined _ hne]
  exact List.reverse_cons

/-- Further rows of terms add an alternative each. -/
theorem steps_rows (names : Dict Subset) (r : QueryReader) (h : r.negations = 0)
    {others : List (String × List String)}
    (hothers : ∀ row ∈ others, row.2 ≠ []) :
    ∃ r', r.steps (others.flatMap fun row => .or :: Token.rowOf names row.2) = some r' ∧
      r'.outer = r.outer ∧
      r'.group.conditions =
        r.group.conditions ++ others.map (fun row => Query.rowCondition names row.2) ∧
      r'.properties = r.properties ∪
        PropertySet.unions (others.map fun row => Query.rowProperties names row.2) := by
  induction others generalizing r with
  | nil => exact ⟨r, rfl, rfl, by simp, (PropertySet.union_empty _).symm⟩
  | cons row others ih =>
    obtain ⟨hne, hothers⟩ := List.forall_mem_cons.1 hothers
    let next : QueryReader := { r with group := r.group.endAlternative }
    have hstep : r.step .or = some next := rfl
    have hrow : next.steps (Token.rowOf names row.2) = some (next.withRow names row.2) :=
      steps_row (r := next) h row.2
    have hconditions : (next.withRow names row.2).group.conditions =
        r.group.conditions ++ [Query.rowCondition names row.2] :=
      conditions_withRow r.group.conjuncts_endAlternative hne
    obtain ⟨r', hr', houter, hrest, hproperties⟩ := ih (next.withRow names row.2) h hothers
    refine ⟨r', ?_, houter, ?_, ?_⟩
    · rw [List.flatMap_cons, List.cons_append, steps_cons, hstep, Option.bind_some, steps_append,
        hrow]
      exact hr'
    · rw [hrest, hconditions, List.map_cons, List.append_assoc]
      rfl
    · rw [hproperties, List.map_cons, PropertySet.unions_cons, ← PropertySet.union_assoc]
      rfl

end QueryReader

namespace Query

/-- Reading is compositional: rows of good texts in parentheses, parted by the word `or`, have
the disjunction over the rows of the conjunctions of their conditions and the union of their
properties, and a minus sign before a good text in parentheses denies its condition. -/
theorem read_compositional (names : Dict Subset) :
    (∀ (first : List String) (others : List (String × List String)), first ≠ [] →
      (∀ row ∈ others, row.1 ∈ orWords ∧ row.2 ≠ []) →
      (∀ row ∈ first :: others.map (·.2), ∀ s ∈ row, Good names s) →
      read names (rowsOfTexts first others) = {
        condition := .joined .any ((first :: others.map (·.2)).map (rowCondition names))
        properties := PropertySet.unions
          ((first :: others.map (·.2)).map (rowProperties names)) }) ∧
    ∀ s, Good names s → read names ("-" ++ grouped s) = {
      condition := .not (read names s).condition
      properties := (read names s).properties } := by
  constructor
  · intro first others hfirst hothers hgood
    obtain ⟨hgoodFirst, hgoodOthers⟩ := List.forall_mem_cons.1 hgood
    let start : QueryReader := QueryReader.withRow names {} first
    have hstart : start.group.conditions = [rowCondition names first] :=
      QueryReader.conditions_withRow rfl hfirst
    obtain ⟨r, hr, houter, hconditions, hproperties⟩ :=
      start.steps_rows names rfl fun row hrow => (hothers row hrow).2
    have hsteps : QueryReader.steps {}
        (Token.scanAll names false (rowsOfTexts first others).toList) = some r := by
      rw [rowsOfTexts, String.toList_append, QueryReader.steps_sideBySide hfirst hgoodFirst,
        QueryReader.steps_congr_tail (QueryReader.steps_furtherRows hothers
          fun row hrow => hgoodOthers row.2 (List.mem_map_of_mem hrow)),
        QueryReader.steps_append, QueryReader.steps_row rfl]
      exact hr
    have hrows : r.group.conditions = (first :: others.map (·.2)).map (rowCondition names) := by
      rw [hconditions, hstart, List.map_cons, List.map_map]
      rfl
    have hunion : r.properties =
        PropertySet.unions ((first :: others.map (·.2)).map (rowProperties names)) := by
      have hfirstProperties : start.properties = rowProperties names first := by
        ext p
        simp [start, QueryReader.withRow]
      rw [hproperties, hfirstProperties, List.map_cons, PropertySet.unions_cons, List.map_map]
      rfl
    have hclosed : r.outer = [] := houter
    have hcondition := OpenGroup.condition?_eq (g := r.group) (by simp [hrows])
    rw [read, QueryReader.run_of_steps hsteps, QueryReader.finish, hclosed]
    simp only [hcondition, hrows, hunion, Option.getD_some]
  · intro s hs
    have htext : ("-" ++ grouped s).toList = '-' :: ((grouped s).toList ++ []) := by simp
    have hempty : Token.scanAll names false [] = [] := by rw [Token.scanAll, if_neg (by decide)]
    have hsteps : QueryReader.steps {} (Token.scanAll names false ("-" ++ grouped s).toList) =
        QueryReader.step { negations := 1 } (.term (asTerm names s)) := by
      rw [htext, Token.scanAll_minus, Token.scanAll_grouped hs.unquoted, hempty,
        QueryReader.steps_cons]
      exact (QueryReader.steps_grouped hs { negations := 1 } []).trans rfl
    have hproperties : ∅ ∪ (read names s).properties = (read names s).properties := by
      ext p
      simp
    rw [read, QueryReader.run_of_steps hsteps]
    exact congrArg (Query.mk · (.not (read names s).condition)) hproperties

theorem good_cheap : Good {} "-cmc>3" := by
  have htokens : Token.scanAll {} false "-cmc>3".toList =
      [.minus, .term (.ofLeaf (.compare .gt .cmc (.int 3)))] := by decide +kernel
  refine ⟨by unfold Term.Unquoted; decide, ?_⟩
  rw [htokens]
  exact ⟨_, _, rfl, rfl, rfl⟩

theorem good_firstSets : Good {} "s:lea or s:leb" := by
  have htokens : Token.scanAll {} false "s:lea or s:leb".toList =
      [.term (.ofLeaf (.compare .eq .set (.text "lea"))), .or,
        .term (.ofLeaf (.compare .eq .set (.text "leb")))] := by decide +kernel
  refine ⟨by unfold Term.Unquoted; decide, ?_⟩
  rw [htokens]
  exact ⟨_, _, rfl, rfl, rfl⟩

/-- Two rows of texts; one of the texts has alternatives of its own. -/
theorem read_compositional_sets :
    (Good {} "-cmc>3" ∧ Good {} "s:lea or s:leb") ∧
    read {} "(-cmc>3) (s:lea or s:leb) OR (-cmc>3)" = {
      condition := .any [
        .all [(read {} "-cmc>3").condition, (read {} "s:lea or s:leb").condition],
        (read {} "-cmc>3").condition]
      properties := PropertySet.unions [
        rowProperties {} ["-cmc>3", "s:lea or s:leb"], rowProperties {} ["-cmc>3"]] } ∧
    (read {} "-(s:lea or s:leb)").condition = .not (read {} "s:lea or s:leb").condition := by
  obtain ⟨hrows, hnegated⟩ := read_compositional {}
  refine ⟨⟨good_cheap, good_firstSets⟩, ?_, ?_⟩
  · have htext : rowsOfTexts ["-cmc>3", "s:lea or s:leb"] [("OR", ["-cmc>3"])] =
        "(-cmc>3) (s:lea or s:leb) OR (-cmc>3)" := by decide
    rw [← htext, hrows _ _ (by simp) (by simp [orWords]) (by simp [good_cheap, good_firstSets])]
    rfl
  · have htext : "-" ++ grouped "s:lea or s:leb" = "-(s:lea or s:leb)" := by decide
    rw [← htext, hnegated _ good_firstSets]

end Query

end CardSearch
