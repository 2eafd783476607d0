import CardSearch.Command.Run
import CardSearch.Proofs.Query.Boundaries
import CardSearch.Proofs.Query.Leaves
import CardSearch.Proofs.Query.Steps

/-!
# Prepared queries

A text is read and simplified once and searched for many times. Its condition refers to subsets by
their ids; what is stored under an id does not show in it. The properties of the query are those
that the stored subsets had at the time.
-/

namespace CardSearch

/-- Two dictionaries know the same names, and file subsets of the same ids under them. -/
def SameIds (names names' : Dict Subset) : Prop :=
  ∀ name, (names'.get? name).map Subset.id = (names.get? name).map Subset.id

namespace Term

variable {names names' : Dict Subset}

def bare (scanned : Term × List Char) : Condition × List Char := (scanned.1.condition, scanned.2)

private theorem subset?_bare (h : SameIds names names') (op : Operator) (cs : List Char) :
    (subset? names' op cs).map bare = (subset? names op cs).map bare := by
  unfold subset?
  dsimp only
  split
  · have hname := h (String.ofList (phrase cs).1)
    have hmap (d : Dict Subset) (name : String) :
        (((d.get? name).map fun subset => ((⟨.subset subset.id, subset.query.properties⟩ : Term),
          (phrase cs).2)).map bare) =
          ((d.get? name).map Subset.id).map fun id => (.subset id, (phrase cs).2) := by
      cases d.get? name <;> rfl
    rw [hmap, hmap, hname]
  · rfl

private theorem ofKeyword?_bare (h : SameIds names names') (op : Operator) (cs : List Char)
    (k : Keyword) : (ofKeyword? names' op cs k).map bare = (ofKeyword? names op cs k).map bare := by
  cases k with
  | subset => exact subset?_bare h op cs
  | _ => rfl

private theorem scan_bare (h : SameIds names names') (cs : List Char) :
    bare (scan names' cs) = bare (scan names cs) := by
  have hkeyword : (keywordTerm? names' cs).map bare = (keywordTerm? names cs).map bare := by
    unfold keywordTerm?
    split
    · rfl
    · split
      · rfl
      · exact ofKeyword?_bare h ..
  have hgetD (t? : Option (Term × List Char)) :
      bare (t?.getD (name cs)) = (t?.map bare).getD (bare (name cs)) := by cases t? <;> rfl
  rw [scan, scan, hgetD, hgetD, hkeyword]

end Term

namespace Token

variable {names names' : Dict Subset}

def bare : Token → Token
  | term t => term ⟨t.condition, ∅⟩
  | t => t

private theorem scanAll_bare (h : SameIds names names') (operand : Bool) (cs : List Char) :
    (scanAll names' operand cs).map bare = (scanAll names operand cs).map bare := by
  have hscan (cs : List Char) : (Term.scan names' cs).1.condition = (Term.scan names cs).1.condition ∧
      (Term.scan names' cs).2 = (Term.scan names cs).2 := Prod.ext_iff.1 (Term.scan_bare h cs)
  have hterm (cs : List Char) : bare (term (Term.scan names' cs).1) =
      bare (term (Term.scan names cs).1) := by
    rw [bare, bare, (hscan cs).1]
  fun_induction scanAll names operand cs with
  | case1 => rw [scanAll, if_pos rfl, List.map_singleton, List.map_singleton, hterm]
  | case2 operand hoperand =>
    rw [Bool.not_eq_true] at hoperand
    subst hoperand
    rw [scanAll]
    rfl
  | case3 operand c cs hc ih =>
    obtain rfl := eq_of_beq hc
    rw [scanAll_opening, List.map_cons, List.map_cons, ih]
  | case4 operand c cs _ hc ih =>
    obtain rfl := eq_of_beq hc
    rw [scanAll_minus, List.map_cons, List.map_cons, ih]
  | case5 c cs hopening hminus scanned _ ih =>
    rw [scanAll_operand (by simpa using hopening) (by simpa using hminus), List.map_cons,
      List.map_cons, hterm, (hscan _).2, ih]
  | case6 operand c cs _ _ hoperand hc ih =>
    rw [Bool.not_eq_true] at hoperand
    subst hoperand
    obtain rfl := eq_of_beq hc
    rw [scanAll_closing, List.map_cons, List.map_cons, ih]
  | case7 operand c cs hopening hminus hoperand hclosing hword ih =>
    rw [Bool.not_eq_true] at hoperand
    subst hoperand
    rw [scanAll_blank hword (by simpa using hclosing), ih]
  | case8 operand c cs hopening hminus hoperand hclosing hword hor ih =>
    rw [Bool.not_eq_true] at hoperand
    subst hoperand
    rw [scanAll_or hor, List.map_cons, List.map_cons, ih]
  | case9 operand c cs hopening hminus hoperand hclosing hword hor scanned _ _ ih =>
    rw [Bool.not_eq_true] at hoperand
    subst hoperand
    rw [scanAll_term (by simpa using hopening) (by simpa using hminus) (by simpa using hword)
      (by simpa using hor), List.map_cons, List.map_cons, hterm, (hscan _).2, ih]

end Token

namespace QueryReader

def bare (r : QueryReader) : QueryReader := { r with properties := ∅ }

private theorem step_bare (r : QueryReader) (t : Token) :
    r.bare.step t.bare = (r.step t).map bare := by
  cases t with
  | closing =>
    obtain ⟨properties, negations, group, _ | ⟨g, outer⟩⟩ := r
    · rfl
    · simp only [step, bare, Token.bare]
      cases group.condition? <;> rfl
  | term t =>
    have hempty : (∅ : PropertySet) ∪ ∅ = ∅ := by decide
    simp only [step, bare, Token.bare, push, Option.map_some, hempty]
  | opening | minus | or => rfl

/-- The properties that have been met do not matter for the condition that is read. -/
theorem condition_run_bare (r : QueryReader) (ts : List Token) :
    (r.bare.run (ts.map .bare)).condition = (r.run ts).condition := by
  induction ts generalizing r with
  | nil =>
    obtain ⟨properties, negations, group, _ | ⟨g, outer⟩⟩ := r <;> rfl
  | cons t ts ih =>
    have hstep := r.step_bare t
    rw [List.map_cons]
    cases hr : r.step t with
    | none =>
      rw [hr, Option.map_none] at hstep
      rw [run_cons_of_none hr, run_cons_of_none hstep]
    | some r' =>
      rw [hr, Option.map_some] at hstep
      rw [run_cons_of_some hr, run_cons_of_some hstep, ih r']

end QueryReader

theorem Query.condition_read_congr {names names' : Dict Subset} (h : SameIds names names')
    (text : String) : (read names' text).condition = (read names text).condition := by
  have hbare (names : Dict Subset) : (read names text).condition =
      (QueryReader.run {} ((Token.scanAll names false text.toList).map .bare)).condition :=
    (QueryReader.condition_run_bare {} _).symm
  rw [hbare, hbare, Token.scanAll_bare h]

namespace Simplified

variable {subsets subsets' : Dict Subset}

private theorem condition_ofJunction_congr {j : Junction} {done cs : List Condition}
    (h : ∀ c ∈ cs, (ofCondition subsets' c).condition = (ofCondition subsets c).condition) :
    (ofJunction subsets' j done cs).condition = (ofJunction subsets j done cs).condition := by
  induction cs generalizing done with
  | nil => rw [ofJunction, ofJunction]
  | cons c cs ih =>
    obtain ⟨hc, hcs⟩ := List.forall_mem_cons.1 h
    rw [ofJunction, ofJunction]
    dsimp only
    rw [hc]
    split
    · rfl
    · exact ih hcs

/-- What is stored under the ids does not matter for the condition. -/
theorem condition_ofCondition_congr (subsets subsets' : Dict Subset) (c : Condition) :
    (ofCondition subsets' c).condition = (ofCondition subsets c).condition := by
  induction c with
  | const b => rw [ofCondition, ofCondition]
  | leaf l => rw [ofCondition, ofCondition]
  | subset id =>
    rw [ofCondition, ofCondition]
    split <;> split <;> rfl
  | not c ih =>
    rw [ofCondition, ofCondition]
    exact congrArg denial ih
  | any cs ih =>
    rw [ofCondition, ofCondition]
    exact condition_ofJunction_congr ih
  | all cs ih =>
    rw [ofCondition, ofCondition]
    exact condition_ofJunction_congr ih

end Simplified

namespace Query

private theorem condition_simplify_congr {subsets subsets' : Dict Subset} {q q' : Query}
    (h : q'.condition = q.condition) :
    (q'.simplify subsets').condition = (q.simplify subsets).condition := by
  rw [simplify, simplify, h]
  exact Simplified.condition_ofCondition_congr subsets subsets' q.condition

theorem condition_prepare_congr {subsets subsets' : SubsetStore}
    (h : SameIds subsets.byName subsets'.byName) (pool : Option Pool) (text : String) :
    (Command.prepare subsets' pool text).condition = (Command.prepare subsets pool text).condition := by
  have hread := condition_read_congr h text
  refine condition_simplify_congr ?_
  cases pool with
  | none => exact hread
  | some pool =>
    refine condition_simplify_congr ?_
    exact congrArg (fun c => Condition.all [pool.query.condition, c]) hread

end Query

/-- Where the name of a stored subset stands for it, so it does after the subset was replaced by
another of that name, and all other names stand for what they did. -/
theorem SubsetStore.sameIds_update {subsets : SubsetStore} {old new : Subset}
    (hold : subsets.get? new.id = some old) (hname : old.name = new.name)
    (hnamed : (subsets.byName.get? new.name).map Subset.id = some new.id) :
    SameIds subsets.byName (subsets.update new).byName := by
  intro name
  have hget : (subsets.update new).byName.get? name =
      if new.name = name then some new else subsets.byName.get? name := by
    rw [update, hold]
    simp only [insert, Dict.get?_insert, Dict.get?_erase, hname]
    split <;> rfl
  rw [hget]
  split
  · next heq => rw [← heq, hnamed, Option.map_some]
  · rfl

end CardSearch
