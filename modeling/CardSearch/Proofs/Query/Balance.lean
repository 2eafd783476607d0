import CardSearch.Proofs.Query.Boundaries
import CardSearch.Proofs.Query.Typed

/-!
# Texts whose parentheses match

A parenthesis counts where it is a token of its own. A text is balanced if none of its parentheses
closes a group that is not open and no group stays open, and just the texts that are not balanced are
read as the condition that is false of every card.

One parenthesis too many stands behind the tokens of a text, whatever keyword, denial or group the
text leaves unfinished, since nothing but a quotation goes on behind a boundary. So it puts a balanced
text without quotes off its balance, and no text that follows can make up for it.
-/

namespace CardSearch

namespace Token

/-- The number of open groups after a token, unless it closes one and none is open. -/
def openAfter? (depth : Nat) : Token → Option Nat
  | opening => some (depth + 1)
  | closing =>
    match depth with
    | 0 => none
    | depth + 1 => some depth
  | minus | or | term _ => some depth

/-- The number of groups that tokens leave open, when so many were open before. -/
def leftOpen? (depth : Nat) (ts : List Token) : Option Nat := ts.foldlM openAfter? depth

variable {depth depth' : Nat} {ts us : List Token}

theorem leftOpen?_cons (depth : Nat) (t : Token) (ts : List Token) :
    leftOpen? depth (t :: ts) = (openAfter? depth t).bind (leftOpen? · ts) := List.foldlM_cons

theorem leftOpen?_append (depth : Nat) (ts us : List Token) :
    leftOpen? depth (ts ++ us) = (leftOpen? depth ts).bind (leftOpen? · us) := List.foldlM_append

private theorem openAfter?_add {t : Token} (h : openAfter? depth t = some depth') (around : Nat) :
    openAfter? (depth + around) t = some (depth' + around) := by
  cases t with
  | opening =>
    cases h
    rw [openAfter?, Nat.add_right_comm]
  | closing =>
    cases depth with
    | zero => cases h
    | succ depth =>
      cases h
      rw [Nat.add_right_comm]
      rfl
  | minus | or | term t =>
    cases h
    rfl

theorem leftOpen?_add (h : leftOpen? depth ts = some depth') (around : Nat) :
    leftOpen? (depth + around) ts = some (depth' + around) := by
  induction ts generalizing depth with
  | nil =>
    cases h
    rfl
  | cons t ts ih =>
    rw [leftOpen?_cons] at h
    obtain ⟨next, hnext, h⟩ := Option.bind_eq_some_iff.1 h
    rw [leftOpen?_cons, openAfter?_add hnext]
    exact ih h

end Token

namespace QueryReader

/-- A reader has as many groups around the innermost one as are open. -/
theorem map_length_step (r : QueryReader) (t : Token) :
    (r.step t).map (·.outer.length) = Token.openAfter? r.outer.length t := by
  cases t with
  | closing =>
    cases houter : r.outer with
    | nil => simp only [step, houter, Option.map_none, List.length_nil, Token.openAfter?]
    | cons g outer =>
      cases hc : r.group.condition? with
      | none => simp only [step, houter, hc, Option.map_some, List.length_cons, Token.openAfter?]
      | some c =>
        simp only [step, houter, hc, Option.map_some, push, List.length_cons, Token.openAfter?]
  | term t | minus | or | opening => rfl

private theorem map_length_steps (r : QueryReader) (ts : List Token) :
    (r.steps ts).map (·.outer.length) = Token.leftOpen? r.outer.length ts := by
  induction ts generalizing r with
  | nil => rfl
  | cons t ts ih =>
    rw [steps_cons, Token.leftOpen?_cons, ← map_length_step]
    cases r.step t with
    | none => rfl
    | some next => exact ih next

end QueryReader

namespace Query

/-- Every parenthesis that is a token of the text has a partner. -/
def Balanced (names : Dict Subset) (text : String) : Prop :=
  Token.leftOpen? 0 (Token.scanAll names false text.toList) = some 0

instance (names : Dict Subset) (text : String) : Decidable (Balanced names text) :=
  inferInstanceAs (Decidable (_ = _))

variable {names : Dict Subset} {s text : String}

/-- A balanced text is read to its end, and no group is left open. -/
theorem balanced_iff : Balanced names text ↔
    ∃ r, QueryReader.steps {} (Token.scanAll names false text.toList) = some r ∧ r.outer = [] := by
  have hlength := QueryReader.map_length_steps {} (Token.scanAll names false text.toList)
  rw [Balanced]
  constructor
  · intro h
    obtain ⟨r, hr, hopen⟩ := Option.map_eq_some_iff.1 (hlength.trans h)
    exact ⟨r, hr, List.length_eq_zero_iff.1 hopen⟩
  · rintro ⟨r, hr, houter⟩
    rw [hr, Option.map_some, houter] at hlength
    exact hlength.symm

/-- A text is read as the condition that is always false if it is not balanced, and only then. -/
theorem condition_read_eq_false_iff :
    (read names text).condition = .const false ↔ ¬ Balanced names text := by
  constructor
  · intro hfalse hbalanced
    have hbuilt : Condition.Built names (· ≠ .const false) := by
      constructor
      · constructor <;> simp
      · simp
      · simp
    obtain ⟨r, hr, houter⟩ := balanced_iff.1 hbalanced
    have heach : r.Each (· ≠ .const false) :=
      QueryReader.each_new.steps hbuilt.toCarried (fun _ => hbuilt.of_scanAll) hr
    apply heach.finish hbuilt.toCarried houter
    rw [← QueryReader.run_of_steps hr]
    exact hfalse
  · intro h
    rw [read]
    cases hsteps : QueryReader.steps {} (Token.scanAll names false text.toList) with
    | none => exact QueryReader.condition_run_of_none hsteps
    | some r =>
      rw [QueryReader.run_of_steps hsteps, QueryReader.finish]
      cases houter : r.outer with
      | nil => exact absurd (balanced_iff.2 ⟨r, hsteps, houter⟩) h
      | cons g outer => rfl

private theorem not_balanced_closing (hs : Term.Unquoted s.toList) (h : Balanced names s)
    (t : String) : ¬ Balanced names (s ++ ")" ++ t) := by
  have htext : (s ++ ")" ++ t).toList = s.toList ++ ')' :: t.toList := by simp
  have hboundary : Term.atBoundary (')' :: t.toList) = true := rfl
  rw [Balanced, htext, Token.scanAll_append hboundary false hs, Token.scanAll_closing,
    Token.leftOpen?_append, h]
  exact nofun

private theorem not_balanced_opening (h : Balanced names s) : ¬ Balanced names ("(" ++ s) := by
  have htext : ("(" ++ s).toList = '(' :: s.toList := by simp
  have hopen : Token.leftOpen? 1 (Token.scanAll names false s.toList) = some 1 :=
    Token.leftOpen?_add h 1
  rw [Balanced, htext, Token.scanAll_opening]
  change ¬ Token.leftOpen? 1 _ = some 0
  rw [hopen]
  exact nofun

/-- A balanced text is not read as false. If there are no quotes in it, it is with a parenthesis that
closes behind it, whatever comes next, and with one that opens before it. -/
theorem unbalanced_reads_false (hs : Term.Unquoted s.toList) (h : Balanced names s) :
    (read names s).condition ≠ .const false ∧
      (∀ t, (read names (s ++ ")" ++ t)).condition = .const false) ∧
      (read names ("(" ++ s)).condition = .const false := by
  refine ⟨fun hfalse => condition_read_eq_false_iff.1 hfalse h, fun t => ?_, ?_⟩
  · exact condition_read_eq_false_iff.2 (not_balanced_closing hs h t)
  · exact condition_read_eq_false_iff.2 (not_balanced_opening h)

/-- A group, a date and a cost that are not finished and a minus sign before nothing. -/
theorem unbalanced_reads_false_unfinished :
    let s := "t:elf (date>2020- or mana:\x7bw/u) -"
    Term.Unquoted s.toList ∧ Balanced {} s ∧
      (read {} s).condition ≠ .const false ∧
      (read {} (s ++ ")" ++ "or (name \"quoted)\"")).condition = .const false ∧
      (read {} ("(" ++ s)).condition = .const false := by
  intro s
  have hs : Term.Unquoted s.toList := by
    constructor <;> decide
  have hbalanced : Balanced {} s := by decide +kernel
  obtain ⟨hread, hclosing, hopening⟩ := unbalanced_reads_false hs hbalanced
  exact ⟨hs, hbalanced, hread, hclosing _, hopening⟩

end Query

end CardSearch
