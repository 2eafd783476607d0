import CardSearch.Proofs.Query.Steps
import CardSearch.Proofs.Query.TextReader
import CardSearch.Proofs.Text.Letters

/-!
# Reading by descent

A text can be read without tokens: a loop over alternatives takes conjunctions from a loop over
conditions, and a condition is a group, which is alternatives again, a denied condition or a term.
Neither loop counts anything down. It goes round as long as there is text before the end of the group,
also when what was to be read in a round turned out to be nothing.

A round that does not leave its loop has gone on by a character at least, since the terms at the start
of a word and the word that parts alternatives take up characters and nothing else of a round can lead
back before its start. So reading comes to an end, and then it has found the query that the tokens of
the text make up.
-/

namespace CardSearch

namespace TextReader

/-- What was to be read: a condition, unless there was none, or else the finding that a group is not
closed. -/
inductive Production
  | unbalanced
  | found (c : Option Condition)

/-- How a round of a loop ends: a group in it is not closed, the loop is left, or another round follows
with the conditions read so far. -/
inductive Round
  | unbalanced
  | leave
  | again (conditions : List Condition)

section Productions

variable (names : Dict Subset) (text : String)

/-- Whether the next two bytes are the letters of the word `or`, in either case. -/
def seesOr (r : TextReader) : Bool :=
  match between? text r.place (r.place + 2) with
  | some [o, s] => o.toLower == 'o' && s.toLower == 'r'
  | _ => false

/-- Goes behind the word `or`, but goes back where the word goes on, and tells whether it is there. -/
def overOr (r : TextReader) : Option (Bool × TextReader) := do
  if r.seesOr text then
    let after := r.moveBy 2
    if Term.atBoundary (← after.left? text) then return (true, after)
    else return (false, after.moveTo (after.place - 2))
  else return (false, r)

mutual

/-- Alternatives up to the end of a group, after those that were read before. -/
def disjunction (alternatives : List Condition) (r : TextReader) :
    Option (Production × TextReader) := do
  match ← r |>.disjunctionRound alternatives with
  | (.unbalanced, last) => return (.unbalanced, last)
  | (.leave, last) => return (.found (Condition.collapse .any alternatives), last)
  | (.again alternatives, last) => last |>.disjunction alternatives
partial_fixpoint

def disjunctionRound (alternatives : List Condition) (r : TextReader) :
    Option (Round × TextReader) := do
  match ← r.left? text with
  | [] => return (.leave, r)
  | c :: _ =>
    if c = ')' then return (.leave, r)
    else if Term.endsWord c then return (.again alternatives, ← r.advance text)
    else match ← r |>.conjunction [] with
      | (.unbalanced, last) => return (.unbalanced, last)
      | (.found c, last) => return (.again (alternatives ++ c.toList), last)
partial_fixpoint

/-- Conditions up to the end of an alternative, after those that were read before. -/
def conjunction (conditions : List Condition) (r : TextReader) :
    Option (Production × TextReader) := do
  match ← r |>.conjunctionRound conditions with
  | (.unbalanced, last) => return (.unbalanced, last)
  | (.leave, last) => return (.found (Condition.collapse .all conditions), last)
  | (.again conditions, last) => last |>.conjunction conditions
partial_fixpoint

def conjunctionRound (conditions : List Condition) (r : TextReader) :
    Option (Round × TextReader) := do
  match ← r.left? text with
  | [] => return (.leave, r)
  | c :: _ =>
    if c = ')' then return (.leave, r)
    else if Term.endsWord c then return (.again conditions, ← r.advance text)
    else match ← r.overOr text with
      | (true, after) => return (.leave, after)
      | (false, back) =>
        match ← back |>.condition with
        | (.unbalanced, last) => return (.unbalanced, last)
        | (.found c, last) => return (.again (conditions ++ c.toList), last)
partial_fixpoint

def condition (r : TextReader) : Option (Production × TextReader) := do
  match ← r.left? text with
  | '(' :: _ =>
    match ← (← r.advance text) |>.disjunction [] with
    | (.unbalanced, last) => return (.unbalanced, last)
    | (.found c, last) =>
      match ← last.left? text with
      | ')' :: _ => return (.found c, ← last.advance text)
      | _ => return (.unbalanced, last)
  | '-' :: _ =>
    match ← (← r.advance text) |>.condition with
    | (.unbalanced, last) => return (.unbalanced, last)
    | (.found c, last) => return (.found (c.map .not), last)
  | _ =>
    let (t, last) ← r.term text names
    return (.found (some t.condition), { last with properties := last.properties ∪ t.properties })
partial_fixpoint

end

def query : Option (Query × TextReader) := do
  match ← disjunction names text [] {} with
  | (.unbalanced, last) => return (⟨last.properties, .const false⟩, last)
  | (.found c, last) =>
    if last.place < text.utf8ByteSize then return (⟨last.properties, .const false⟩, last)
    else return (⟨last.properties, c.getD (.const true)⟩, last)

end Productions

section OrWord

variable {text : String} {cs : List Char} {properties : PropertySet} {r : TextReader}

private theorem utf8Size_of_toLower {c d : Char} (hd : d.utf8Size = 1) (h : c.toLower = d) :
    c.utf8Size = 1 := by
  rw [Text.utf8Size_eq_one_iff, ← Text.toNat_toLower_lt_iff, h]
  exact Text.utf8Size_eq_one_iff.1 hd

def startsWithLetters : List Char → Bool
  | o :: s :: _ => o.toLower == 'o' && s.toLower == 'r'
  | _ => false

theorem exists_letters (h : startsWithLetters cs = true) : ∃ o s rest, cs = o :: s :: rest := by
  cases cs with
  | nil => cases h
  | cons o cs =>
    cases cs with
    | nil => cases h
    | cons s rest => exact ⟨o, s, rest, rfl⟩

private theorem startsWithOr_eq (cs : List Char) :
    Token.startsWithOr cs = (startsWithLetters cs && Term.atBoundary (cs.drop 2)) := by
  cases cs with
  | nil => rfl
  | cons o cs => cases cs <;> rfl

theorem At.behind_letters {o s : Char} (h : r.At text (o :: s :: cs) properties)
    (hletters : startsWithLetters (o :: s :: cs) = true) : (r.moveBy 2).At text cs properties := by
  obtain ⟨ho, hs⟩ := Bool.and_eq_true_iff.1 hletters
  have hsize : Text.byteLength [o, s] = 2 := by
    rw [Text.byteLength_cons, Text.byteLength_cons, Text.byteLength_nil,
      utf8Size_of_toLower rfl (eq_of_beq ho), utf8Size_of_toLower rfl (eq_of_beq hs)]
  have hmoved : (r.moveBy (Text.byteLength [o, s])).At text cs properties := moveBy h
  exact hsize ▸ hmoved

private theorem At.prefix_of_between? {token : List Char} {stop : Nat} (h : r.At text cs properties)
    (hbetween : TextReader.between? text r.place stop = some token) : token <+: cs := by
  have hleft : ManaCost.fromByte? r.place text.toList = some cs := h.left?_eq
  simp only [TextReader.between?, hleft, Option.bind_eq_bind, Option.bind_some] at hbetween
  obtain ⟨rest, -, htoken⟩ := Option.bind_eq_some_iff.1 hbetween
  obtain ⟨-, htoken⟩ := Option.ite_none_right_eq_some.1 htoken
  cases htoken
  exact List.take_prefix _ cs

private theorem At.seesOr_eq (h : r.At text cs properties) :
    r.seesOr text = startsWithLetters cs := by
  rw [Bool.eq_iff_iff]
  constructor
  · intro hsees
    rw [seesOr] at hsees
    split at hsees
    next o s hbetween =>
      obtain ⟨rest, rfl⟩ := h.prefix_of_between? hbetween
      exact hsees
    next => cases hsees
  · intro hletters
    obtain ⟨o, s, rest, rfl⟩ := exists_letters hletters
    have hbetween : TextReader.between? text r.place (r.place + 2) = some [o, s] :=
      At.between? h (h.behind_letters hletters)
    rw [seesOr, hbetween]
    exact hletters

theorem At.overOr (h : r.At text cs properties) : ∃ last,
    r.overOr text = some (Token.startsWithOr cs, last) ∧
      last.At text (if Token.startsWithOr cs then cs.drop 2 else cs) properties := by
  rw [TextReader.overOr, h.seesOr_eq, startsWithOr_eq]
  cases hletters : startsWithLetters cs with
  | false => exact ⟨r, rfl, h⟩
  | true =>
    obtain ⟨o, s, rest, rfl⟩ := exists_letters hletters
    have hbehind := h.behind_letters hletters
    rw [Bool.true_and, List.drop_succ_cons, List.drop_succ_cons, List.drop_zero]
    cases hrest : Term.atBoundary rest with
    | true => exact ⟨r.moveBy 2, by simp [hbehind.left?_eq, hrest], hbehind⟩
    | false =>
      -- A longer word starts with the letters, so the reader goes back to them.
      refine ⟨(r.moveBy 2).moveTo ((r.moveBy 2).place - 2), ?_, hbehind.moveTo h.left?_eq⟩
      simp [hbehind.left?_eq, hrest]

end OrWord

end TextReader

namespace OpenGroup

def withLast (g : OpenGroup) (conditions : List Condition) : OpenGroup :=
  { g with conjuncts := conditions.reverse }

def withAlternative (g : OpenGroup) (c : Option Condition) : OpenGroup :=
  { g with alternatives := c.toList ++ g.alternatives, conjuncts := [] }

theorem endAlternative_withLast (g : OpenGroup) (conditions : List Condition) :
    (g.withLast conditions).endAlternative =
      g.withAlternative (Condition.collapse .all conditions) := by
  rw [endAlternative, withLast, List.reverse_reverse]
  match conditions with
  | [] | [_] | _ :: _ :: _ => rfl

theorem condition?_of_alternatives (n : Nat) (alternatives : List Condition) :
    condition? ⟨n, alternatives.reverse, []⟩ = Condition.collapse .any alternatives := by
  rw [condition?, endAlternative]
  exact congrArg (Condition.collapse .any) (List.reverse_reverse alternatives)

theorem condition?_of_found (n : Nat) (c : Option Condition) : condition? ⟨n, c.toList, []⟩ = c := by
  cases c <;> rfl

theorem negate_succ (n : Nat) (c : Condition) : negate (n + 1) c = negate n (.not c) := by
  induction n with
  | zero => rfl
  | succ n ih => exact congrArg Condition.not ih

end OpenGroup

namespace QueryReader

def behind (q : QueryReader) (properties : PropertySet) : Option Condition → QueryReader
  | none => { q with properties, negations := 0 }
  | some c => { q with properties }.push c

variable {names : Dict Subset} {cs : List Char}

/-- Nothing but the end of the group stands at the start of a text. -/
def GroupEnds (cs : List Char) : Prop := ∀ c ∈ cs.head?, c = ')'

theorem run_groupEnds (h : GroupEnds cs) {g g' : OpenGroup}
    (hcondition : g.condition? = g'.condition?) (hnegations : g.negations = g'.negations)
    (properties : PropertySet) (outer : List OpenGroup) :
    run ⟨properties, 0, g, outer⟩ (Token.scanAll names false cs) =
      run ⟨properties, 0, g', outer⟩ (Token.scanAll names false cs) := by
  cases cs with
  | nil =>
    rw [Token.scanAll, if_neg Bool.false_ne_true, run, run, hcondition]
  | cons c cs =>
    obtain rfl : c = ')' := h c rfl
    rw [Token.scanAll_closing, run, run, hcondition, hnegations]

end QueryReader

namespace TextReader

open QueryReader Token

/-- Where a reader has come to that saw `cs` before: not back, and on by a character at least if a
word went on there. -/
structure ComesTo (cs rest : List Char) : Prop where
  length_le : rest.length ≤ cs.length
  length_lt : Term.atBoundary cs = false → rest.length < cs.length

theorem ComesTo.of_length_lt {cs rest : List Char} (h : rest.length < cs.length) : ComesTo cs rest :=
  ⟨Nat.le_of_lt h, fun _ => h⟩

/-- What reading has to do with the query of the whole text: the condition that was found is all that
the rest has to know, and where a group is not closed nothing matches. -/
def Production.Leads (q : Query) (properties : PropertySet) (behind : Option Condition → Query) :
    Production → Prop
  | .unbalanced => q = ⟨properties, .const false⟩
  | .found c => q = behind c

/-- A loop as a part of a text: how its conditions are joined, the query of the whole text when the
loop has read some properties and conditions and some text is left, the same when the loop has been
left, and the text at which it may be left. -/
structure Loop where
  join : List Condition → Condition
  inside : PropertySet → List Condition → List Char → Query
  behind : PropertySet → Option Condition → List Char → Query
  stops : List Char → Prop

namespace Loop

def row (names : Dict Subset) (g : OpenGroup) (outer : List OpenGroup) : Loop where
  join := .all
  inside properties conditions cs :=
    run ⟨properties, 0, g.withLast conditions, outer⟩ (scanAll names false cs)
  behind properties c cs := run ⟨properties, 0, g.withAlternative c, outer⟩ (scanAll names false cs)
  stops _ := True

def group (names : Dict Subset) (n : Nat) (outer : List OpenGroup) : Loop where
  join := .any
  inside properties alternatives cs :=
    run ⟨properties, 0, ⟨n, alternatives.reverse, []⟩, outer⟩ (scanAll names false cs)
  behind properties c cs := run ⟨properties, 0, ⟨n, c.toList, []⟩, outer⟩ (scanAll names false cs)
  stops := GroupEnds

variable (l : Loop) (text : String)

/-- What a round has to do with the query of the whole text. A round that does not leave the loop has
gone on by a character at least. -/
def Leads (q : Query) (conditions : List Condition) (cs : List Char) (properties : PropertySet)
    (rest : List Char) : Round → Prop
  | .unbalanced => q = ⟨properties, .const false⟩
  | .leave => l.stops rest ∧ q = l.behind properties (Condition.collapse l.join conditions) rest
  | .again conditions => rest.length < cs.length ∧ q = l.inside properties conditions rest

def Rounds (round : List Condition → TextReader → Option (Round × TextReader)) (cs : List Char) :
    Prop :=
  ∀ conditions r properties, r.At text cs properties → ∃ outcome last rest properties',
    round conditions r = some (outcome, last) ∧ last.At text rest properties' ∧ ComesTo cs rest ∧
      l.Leads (l.inside properties conditions cs) conditions cs properties' rest outcome

def Ends (loop : List Condition → TextReader → Option (Production × TextReader)) (cs : List Char) :
    Prop :=
  ∀ conditions r properties, r.At text cs properties → ∃ p last rest properties',
    loop conditions r = some (p, last) ∧ last.At text rest properties' ∧ ComesTo cs rest ∧
      p.Leads (l.inside properties conditions cs) properties'
        (fun c => l.behind properties' c rest) ∧ (∀ c, p = .found c → l.stops rest)

/-- How a loop goes on after a round. -/
def carryOn (join : List Condition → Condition)
    (loop : List Condition → TextReader → Option (Production × TextReader))
    (conditions : List Condition) : Round × TextReader → Option (Production × TextReader)
  | (.unbalanced, last) => some (.unbalanced, last)
  | (.leave, last) => some (.found (Condition.collapse join conditions), last)
  | (.again conditions, last) => loop conditions last

variable {l text}

/-- A loop comes to an end if its rounds do, since what is left gets shorter with each round. -/
theorem Rounds.ends {round : List Condition → TextReader → Option (Round × TextReader)}
    {loop : List Condition → TextReader → Option (Production × TextReader)}
    (hloop : ∀ conditions r, loop conditions r =
      (round conditions r).bind (carryOn l.join loop conditions))
    {cs : List Char} (hround : ∀ ds, ds.length ≤ cs.length → l.Rounds text round ds) :
    l.Ends text loop cs := by
  induction hlength : cs.length using Nat.strongRecOn generalizing cs with
  | ind n ih =>
    subst hlength
    intro conditions r properties hat
    obtain ⟨outcome, last, rest, properties', hread, hlast, hcomes, hleads⟩ :=
      hround cs (Nat.le_refl _) conditions r properties hat
    rw [hloop, hread, Option.bind_some]
    cases outcome with
    | unbalanced => exact ⟨_, last, rest, properties', rfl, hlast, hcomes, hleads, nofun⟩
    | leave => exact ⟨_, last, rest, properties', rfl, hlast, hcomes, hleads.2, fun _ _ => hleads.1⟩
    | again conditions' =>
      obtain ⟨hlt, hquery⟩ := hleads
      rw [hquery]
      obtain ⟨p, final, rest', properties'', hfinal, hfinalAt, hcomes', hleads'⟩ :=
        ih rest.length hlt (fun ds hds => hround ds (Nat.le_trans hds (Nat.le_of_lt hlt))) rfl
          conditions' last properties' hlast
      have hrest := Nat.lt_of_le_of_lt hcomes'.length_le hlt
      exact ⟨p, final, rest', properties'', hfinal, hfinalAt, .of_length_lt hrest, hleads'⟩

end Loop

variable {names : Dict Subset} {text : String} {cs : List Char}

/-- A condition that starts where `cs` is left comes to an end, and it is the one that the tokens of
an operand make up. -/
def ReadsCondition (names : Dict Subset) (text : String) (cs : List Char) : Prop :=
  ∀ (q : QueryReader) r, r.At text cs q.properties → ∃ p last rest properties,
    condition names text r = some (p, last) ∧ last.At text rest properties ∧ ComesTo cs rest ∧
      p.Leads (q.run (scanAll names true cs)) properties
        fun c => (q.behind properties c).run (scanAll names false rest)

private theorem scanAll_false_eq {c : Char} (hc : Term.endsWord c = false)
    (hor : startsWithOr (c :: cs) = false) :
    scanAll names false (c :: cs) = scanAll names true (c :: cs) := by
  by_cases hopening : c = '('
  · rw [hopening, scanAll_opening, scanAll_opening]
  · by_cases hminus : c = '-'
    · rw [hminus, scanAll_minus, scanAll_minus]
    · rw [scanAll_term hopening hminus hc hor, scanAll_operand hopening hminus]

/-- The rounds of both loops start alike: the loop is left at the end of the group, and a blank is
gone over. What is left to show is what a round does where a word goes on. -/
theorem Loop.rounds_of_word {l : Loop}
    {round body : List Condition → TextReader → Option (Round × TextReader)}
    (hround : ∀ conditions r, round conditions r = do
      match ← r.left? text with
      | [] => return (.leave, r)
      | c :: _ =>
        if c = ')' then return (.leave, r)
        else if Term.endsWord c then return (.again conditions, ← r.advance text)
        else body conditions r)
    (hends : GroupEnds cs → l.stops cs ∧ ∀ properties conditions,
      l.inside properties conditions cs =
        l.behind properties (Condition.collapse l.join conditions) cs)
    (hblank : ∀ c ds, cs = c :: ds → Term.endsWord c = true → c ≠ ')' → ∀ properties conditions,
      l.inside properties conditions cs = l.inside properties conditions ds)
    (hword : Term.atBoundary cs = false → l.Rounds text body cs) : l.Rounds text round cs := by
  intro conditions r properties hat
  have hleave (h : GroupEnds cs) :
      l.Leads (l.inside properties conditions cs) conditions cs properties cs .leave :=
    ⟨(hends h).1, (hends h).2 properties conditions⟩
  rw [hround, hat.left?_eq]
  cases cs with
  | nil => exact ⟨.leave, r, [], properties, rfl, hat, ⟨Nat.le_refl _, nofun⟩, hleave nofun⟩
  | cons c cs =>
    by_cases hclosing : c = ')'
    · subst hclosing
      have hend : GroupEnds (')' :: cs) := by rintro d ⟨⟩; rfl
      exact ⟨.leave, r, _, properties, by simp, hat, ⟨Nat.le_refl _, nofun⟩, hleave hend⟩
    · cases hc : Term.endsWord c with
      | true =>
        obtain ⟨last, hadvance, hlast⟩ := hat.advance
        have hlt : cs.length < (c :: cs).length := Nat.lt_succ_self _
        refine ⟨.again conditions, last, cs, properties, ?_, hlast, .of_length_lt hlt, hlt,
          hblank c cs rfl hc hclosing properties conditions⟩
        simp [hclosing, hc, hadvance]
      | false =>
        have hbody := hword hc conditions r properties hat
        simpa [hclosing, hc] using hbody

theorem conjunctionRound_rounds (g : OpenGroup) (outer : List OpenGroup)
    (h : ReadsCondition names text cs) :
    (Loop.row names g outer).Rounds text (conjunctionRound names text) cs := by
  refine Loop.rounds_of_word (fun conditions r => by rw [conjunctionRound]) (fun hend => ?_) ?_ ?_
  · refine ⟨trivial, fun properties conditions => ?_⟩
    have hcondition : (g.withLast conditions).condition? =
        (g.withAlternative (Condition.collapse .all conditions)).condition? := by
      rw [OpenGroup.condition?, OpenGroup.condition?, OpenGroup.endAlternative_withLast]
      rfl
    exact run_groupEnds hend hcondition rfl properties outer
  · rintro c ds rfl hc hclosing properties conditions
    simp only [Loop.row, scanAll_blank hc hclosing]
  · intro hword conditions r properties hat
    obtain ⟨c, ds, rfl⟩ : ∃ c ds, cs = c :: ds := by
      cases cs with
      | nil => cases hword
      | cons c ds => exact ⟨c, ds, rfl⟩
    obtain ⟨back, hover, hback⟩ := hat.overOr
    cases hor : startsWithOr (c :: ds) with
    | true =>
      rw [hor] at hover hback
      -- The loop is left behind the word, so an alternative may be empty but never takes up nothing.
      have hlt : (ds.drop 1).length < (c :: ds).length := by
        rw [List.length_drop, List.length_cons]
        omega
      refine ⟨.leave, back, ds.drop 1, properties, by simp [hover], hback, .of_length_lt hlt, trivial,
        ?_⟩
      simp only [Loop.row, scanAll_or hor, run, OpenGroup.endAlternative_withLast]
    | false =>
      rw [hor] at hover hback
      -- A word goes on here, so even a condition that is nothing, as an empty group is, takes up some.
      obtain ⟨p, last, rest, properties', hread, hlast, hcomes, hleads⟩ :=
        h ⟨properties, 0, g.withLast conditions, outer⟩ back hback
      rw [← scanAll_false_eq hword hor] at hleads
      cases p with
      | unbalanced =>
        exact ⟨.unbalanced, last, rest, properties', by simp [hover, hread], hlast, hcomes, hleads⟩
      | found d =>
        refine ⟨.again (conditions ++ d.toList), last, rest, properties', by simp [hover, hread],
          hlast, hcomes, hcomes.length_lt hword, hleads.trans ?_⟩
        cases d with
        | none => simp [Loop.row, QueryReader.behind]
        | some d =>
          simp [Loop.row, QueryReader.behind, QueryReader.push, OpenGroup.push, OpenGroup.withLast,
            OpenGroup.negate, Nat.repeat]

theorem disjunctionRound_rounds (n : Nat) (outer : List OpenGroup)
    (h : ∀ g outer, (Loop.row names g outer).Ends text (conjunction names text) cs) :
    (Loop.group names n outer).Rounds text (disjunctionRound names text) cs := by
  refine Loop.rounds_of_word (fun conditions r => by rw [disjunctionRound]) (fun hend => ?_) ?_ ?_
  · refine ⟨hend, fun properties alternatives => ?_⟩
    have hcondition : OpenGroup.condition? ⟨n, alternatives.reverse, []⟩ =
        OpenGroup.condition? ⟨n, (Condition.collapse .any alternatives).toList, []⟩ := by
      rw [OpenGroup.condition?_of_alternatives, OpenGroup.condition?_of_found]
    exact run_groupEnds hend hcondition rfl properties outer
  · rintro c ds rfl hc hclosing properties alternatives
    simp only [Loop.group, scanAll_blank hc hclosing]
  · intro hword alternatives r properties hat
    obtain ⟨p, last, rest, properties', hread, hlast, hcomes, hleads, -⟩ :=
      h ⟨n, alternatives.reverse, []⟩ outer [] r properties hat
    cases p with
    | unbalanced =>
      exact ⟨.unbalanced, last, rest, properties', by simp [hread], hlast, hcomes, hleads⟩
    | found d =>
      refine ⟨.again (alternatives ++ d.toList), last, rest, properties', by simp [hread], hlast,
        hcomes, hcomes.length_lt hword, hleads.trans ?_⟩
      cases d <;> simp [Loop.row, Loop.group, OpenGroup.withAlternative]

theorem conjunction_ends (g : OpenGroup) (outer : List OpenGroup)
    (h : ∀ ds, ds.length ≤ cs.length → ReadsCondition names text ds) :
    (Loop.row names g outer).Ends text (conjunction names text) cs := by
  refine Loop.Rounds.ends (fun conditions r => ?_) fun ds hds =>
    conjunctionRound_rounds g outer (h ds hds)
  rw [conjunction]
  cases conjunctionRound names text conditions r with
  | none => rfl
  | some read => obtain ⟨_ | _ | _, last⟩ := read <;> rfl

theorem disjunction_ends (n : Nat) (outer : List OpenGroup)
    (h : ∀ ds, ds.length ≤ cs.length → ReadsCondition names text ds) :
    (Loop.group names n outer).Ends text (disjunction names text) cs := by
  have hrow {ds : List Char} (hds : ds.length ≤ cs.length) (g : OpenGroup) (outer : List OpenGroup) :
      (Loop.row names g outer).Ends text (conjunction names text) ds :=
    conjunction_ends g outer fun es hes => h es (Nat.le_trans hes hds)
  refine Loop.Rounds.ends (fun alternatives r => ?_) fun ds hds =>
    disjunctionRound_rounds n outer (hrow hds)
  rw [disjunction]
  cases disjunctionRound names text alternatives r with
  | none => rfl
  | some read => obtain ⟨_ | _ | _, last⟩ := read <;> rfl

theorem readsCondition_opening (h : ∀ n outer, (Loop.group names n outer).Ends text
    (disjunction names text) cs) : ReadsCondition names text ('(' :: cs) := by
  intro q r hat
  obtain ⟨start, hadvance, hstart⟩ := hat.advance
  obtain ⟨p, last, rest, properties, hread, hlast, hcomes, hleads, hstops⟩ :=
    h q.negations (q.group :: q.outer) [] start q.properties hstart
  have hlt : rest.length < ('(' :: cs).length := Nat.lt_succ_of_le hcomes.length_le
  have hquery : q.run (scanAll names true ('(' :: cs)) =
      (Loop.group names q.negations (q.group :: q.outer)).inside q.properties [] cs := by
    rw [scanAll_opening, run]
    rfl
  rw [hquery, condition, hat.left?_eq]
  cases p with
  | unbalanced =>
    exact ⟨.unbalanced, last, rest, properties, by simp [hadvance, hread], hlast, .of_length_lt hlt,
      hleads⟩
  | found c =>
    cases rest with
    | nil =>
      refine ⟨.unbalanced, last, [], properties, ?_, hlast, .of_length_lt hlt, hleads.trans ?_⟩
      · simp [hadvance, hread, hlast.left?_eq]
      · simp only [Loop.group, scanAll, if_neg Bool.false_ne_true, run]
    | cons d rest =>
      obtain rfl : d = ')' := hstops c rfl d rfl
      obtain ⟨final, hclose, hfinal⟩ := hlast.advance
      have hlt' : rest.length < ('(' :: cs).length := Nat.lt_of_succ_lt hlt
      refine ⟨.found c, final, rest, properties, ?_, hfinal, .of_length_lt hlt', hleads.trans ?_⟩
      · simp [hadvance, hread, hlast.left?_eq, hclose]
      · simp only [Loop.group, scanAll_closing, run, OpenGroup.condition?_of_found]
        cases c <;> rfl

private theorem readsCondition_minus (h : ReadsCondition names text cs) :
    ReadsCondition names text ('-' :: cs) := by
  intro q r hat
  obtain ⟨start, hadvance, hstart⟩ := hat.advance
  obtain ⟨p, last, rest, properties, hread, hlast, hcomes, hleads⟩ :=
    h { q with negations := q.negations + 1 } start hstart
  have hlt : rest.length < ('-' :: cs).length := Nat.lt_succ_of_le hcomes.length_le
  have hquery : q.run (scanAll names true ('-' :: cs)) =
      run { q with negations := q.negations + 1 } (scanAll names true cs) := by
    rw [scanAll_minus, run]
  rw [hquery, condition, hat.left?_eq]
  cases p with
  | unbalanced =>
    exact ⟨.unbalanced, last, rest, properties, by simp [hadvance, hread], hlast, .of_length_lt hlt,
      hleads⟩
  | found c =>
    refine ⟨.found (c.map .not), last, rest, properties, by simp [hadvance, hread], hlast,
      .of_length_lt hlt, hleads.trans ?_⟩
    cases c with
    | none => rfl
    | some c => simp [QueryReader.behind, QueryReader.push, OpenGroup.negate_succ]

private theorem readsCondition_term (hopening : ∀ ds, cs ≠ '(' :: ds) (hminus : ∀ ds, cs ≠ '-' :: ds) :
    ReadsCondition names text cs := by
  intro q r hat
  obtain ⟨last, hread, hlast⟩ := hat.term names
  have htokens : scanAll names true cs =
      Token.term (Term.scan names cs).1 :: scanAll names false (Term.scan names cs).2 := by
    cases cs with
    | nil =>
      have hempty : (Term.scan names []).2 = [] := List.suffix_nil.1 (Term.scan_suffix names [])
      rw [hempty, scanAll, if_pos rfl, scanAll, if_neg Bool.false_ne_true]
    | cons c cs =>
      exact scanAll_operand (fun hc => hopening cs (hc ▸ rfl)) (fun hc => hminus cs (hc ▸ rfl)) cs
  have hcomes : ComesTo cs (Term.scan names cs).2 := by
    refine ⟨(Term.scan_suffix names cs).length_le, fun hword => ?_⟩
    cases cs with
    | nil => cases hword
    | cons c cs => exact Term.scan_length_lt names hword
  refine ⟨.found (some (Term.scan names cs).1.condition),
    { last with properties := last.properties ∪ (Term.scan names cs).1.properties },
    (Term.scan names cs).2, q.properties ∪ (Term.scan names cs).1.properties, ?_, ?_, hcomes, ?_⟩
  · rw [condition, hat.left?_eq, Option.bind_eq_bind, Option.bind_some]
    split
    next ds => exact absurd rfl (hopening ds)
    next ds => exact absurd rfl (hminus ds)
    next => simp [hread]
  · exact ⟨hlast.left?_eq, hlast.seen, by rw [hlast.properties_eq]⟩
  · rw [htokens]
    rfl

/-- Conditions come to an end, since those within them, which are shorter, do. -/
theorem readsCondition (names : Dict Subset) (text : String) (cs : List Char) :
    ReadsCondition names text cs := by
  induction hlength : cs.length using Nat.strongRecOn generalizing cs with
  | ind n ih =>
    subst hlength
    by_cases hopening : ∃ ds, cs = '(' :: ds
    · obtain ⟨ds, rfl⟩ := hopening
      -- The loops of a group count on conditions of every part of what is left behind its parenthesis.
      exact readsCondition_opening fun n outer => disjunction_ends n outer
        fun es hes => ih es.length (Nat.lt_succ_of_le hes) es rfl
    · by_cases hminus : ∃ ds, cs = '-' :: ds
      · obtain ⟨ds, rfl⟩ := hminus
        exact readsCondition_minus (ih ds.length (Nat.lt_succ_self _) ds rfl)
      · exact readsCondition_term (fun ds heq => hopening ⟨ds, heq⟩) fun ds heq => hminus ⟨ds, heq⟩

private theorem At.place_add {properties : PropertySet} {r : TextReader}
    (h : r.At text cs properties) : r.place + Text.byteLength cs = text.utf8ByteSize := by
  obtain ⟨before, htext, hplace⟩ := seen_iff.1 h.left?_eq
  rw [← hplace, ← Text.byteLength_append, ← htext, byteLength_eq, String.ofList_toList]

/-- Reading a whole text by descent comes to an end with the query of its tokens. -/
theorem query_eq (names : Dict Subset) (text : String) : ∃ last rest properties,
    query names text = some (Query.read names text, last) ∧ last.At text rest properties := by
  obtain ⟨p, last, rest, properties, hread, hlast, -, hleads, hstops⟩ :=
    disjunction_ends 0 [] (fun ds _ => readsCondition names text ds) [] {} ∅ (at_start text)
  refine ⟨last, rest, properties, ?_, hlast⟩
  have hquery : Query.read names text =
      (Loop.group names 0 []).inside ∅ [] text.toList := rfl
  have hplace := hlast.place_add
  cases p with
  | unbalanced =>
    rw [hquery, hleads, query, hread, ← hlast.properties_eq]
    rfl
  | found c =>
    rw [hquery, hleads, query, hread, Option.bind_eq_bind, Option.bind_some]
    cases rest with
    | nil =>
      have hend : ¬last.place < text.utf8ByteSize := by
        rw [Text.byteLength_nil] at hplace
        omega
      simp only [if_neg hend, Loop.group, scanAll, if_neg Bool.false_ne_true, run,
        OpenGroup.condition?_of_found, hlast.properties_eq]
      rfl
    | cons d rest =>
      obtain rfl : d = ')' := hstops c rfl d rfl
      have hleft : last.place < text.utf8ByteSize := by
        have := Char.utf8Size_pos ')'
        rw [Text.byteLength_cons] at hplace
        omega
      simp only [if_pos hleft, Loop.group, scanAll_closing, run, hlast.properties_eq]
      rfl

/-- The reader is at the start of a character or at the end of the text, and it always was. -/
def Safe (text : String) (r : TextReader) : Prop :=
  ∀ place ∈ r.place :: r.past, String.Pos.Raw.IsValid text ⟨place⟩

instance (text : String) (r : TextReader) : Decidable (r.Safe text) :=
  inferInstanceAs (Decidable (∀ place ∈ r.place :: r.past, String.Pos.Raw.IsValid text ⟨place⟩))

private theorem isValid_iff_seen {place : Nat} : String.Pos.Raw.IsValid text ⟨place⟩ ↔
    ∃ ds, ManaCost.fromByte? place text.toList = some ds := by
  rw [String.Pos.Raw.isValid_iff_exists_append]
  constructor
  · rintro ⟨before, after, rfl, hplace⟩
    refine ⟨after.toList, seen_iff.2 ⟨before.toList, String.toList_append, ?_⟩⟩
    rw [byteLength_eq, String.ofList_toList]
    exact (congrArg String.Pos.Raw.byteIdx hplace).symm
  · rintro ⟨ds, hseen⟩
    obtain ⟨before, htext, rfl⟩ := seen_iff.1 hseen
    refine ⟨String.ofList before, String.ofList ds, ?_, ?_⟩
    · rw [← String.ofList_append, ← htext, String.ofList_toList]
    · rw [byteLength_eq]
      rfl

theorem safe_iff {r : TextReader} : r.Safe text ↔ ∃ cs, r.At text cs r.properties := by
  constructor
  · intro h
    obtain ⟨cs, hcs⟩ := isValid_iff_seen.1 (h r.place List.mem_cons_self)
    exact ⟨cs, hcs, fun place hplace => isValid_iff_seen.1 (h place (List.mem_cons_of_mem _ hplace)),
      rfl⟩
  · rintro ⟨cs, h⟩ place hplace
    rcases List.mem_cons.1 hplace with rfl | hpast
    · exact isValid_iff_seen.2 ⟨cs, h.left?_eq⟩
    · exact isValid_iff_seen.2 (h.seen place hpast)

theorem At.safe {properties : PropertySet} {r : TextReader} (h : r.At text cs properties) :
    r.Safe text :=
  safe_iff.2 ⟨cs, h.properties_eq.symm ▸ h⟩

/-- A round from where the reader is comes to an end, and unless it leaves the loop it has gone on. -/
def GoesOn (text : String) (r : TextReader) (round : Option (Round × TextReader)) : Prop :=
  ∃ outcome last, round = some (outcome, last) ∧ last.Safe text ∧
    ∀ conditions, outcome = .again conditions → r.place < last.place

private theorem Loop.Rounds.goesOn {l : Loop}
    {round : List Condition → TextReader → Option (Round × TextReader)}
    (h : ∀ cs, l.Rounds text round cs) {r : TextReader} (hsafe : r.Safe text)
    (conditions : List Condition) : r.GoesOn text (round conditions r) := by
  obtain ⟨cs, hat⟩ := safe_iff.1 hsafe
  obtain ⟨outcome, last, rest, properties, hread, hlast, -, hleads⟩ :=
    h cs conditions r r.properties hat
  refine ⟨outcome, last, hread, hlast.safe, ?_⟩
  rintro conditions' rfl
  exact lt_of_length_lt hat.left?_eq hlast.left?_eq hleads.1

/-- Reading by descent always comes to an end, with the query of the text, and on its way the reader
never is within a character or beyond the end of the text: each round of the two loops, wherever the
reader may be and whatever was read in it, leaves its loop or has gone on. -/
theorem reading_ends (names : Dict Subset) (text : String) :
    (∀ r : TextReader, r.Safe text → ∀ conditions,
      r.GoesOn text (disjunctionRound names text conditions r) ∧
        r.GoesOn text (conjunctionRound names text conditions r)) ∧
      ∃ last, query names text = some (Query.read names text, last) ∧ last.Safe text := by
  have hrow (g : OpenGroup) (outer : List OpenGroup) (cs : List Char) :
      (Loop.row names g outer).Ends text (conjunction names text) cs :=
    conjunction_ends g outer fun ds _ => readsCondition names text ds
  have hdisjunction (cs : List Char) :
      (Loop.group names 0 []).Rounds text (disjunctionRound names text) cs :=
    disjunctionRound_rounds 0 [] fun g outer => hrow g outer cs
  have hconjunction (cs : List Char) :
      (Loop.row names {} []).Rounds text (conjunctionRound names text) cs :=
    conjunctionRound_rounds {} [] (readsCondition names text cs)
  obtain ⟨last, rest, properties, hquery, hlast⟩ := query_eq names text
  exact ⟨fun r hsafe conditions => ⟨Loop.Rounds.goesOn hdisjunction hsafe conditions,
    Loop.Rounds.goesOn hconjunction hsafe conditions⟩, last, hquery, hlast.safe⟩

/-- From a minus sign before a closing parenthesis, a rarity that does not end with its word, an empty
group and a word `or` on its own. -/
theorem reading_ends_abandoned :
    let text := "-) r:ſx () or"
    (Safe text { place := 0 } ∧
      GoesOn text { place := 0 } (conjunctionRound {} text [] { place := 0 })) ∧
    (Safe text { place := 3 } ∧
      GoesOn text { place := 3 } (conjunctionRound {} text [] { place := 3 })) ∧
    (Safe text { place := 9 } ∧
      GoesOn text { place := 9 } (conjunctionRound {} text [] { place := 9 })) ∧
    (Safe text { place := 12 } ∧
      GoesOn text { place := 12 } (disjunctionRound {} text [] { place := 12 })) := by
  intro text
  have hminus : Safe text { place := 0 } := by decide
  have hkeyword : Safe text { place := 3 } := by decide
  have hgroup : Safe text { place := 9 } := by decide
  have hor : Safe text { place := 12 } := by decide
  have hrounds := (reading_ends {} text).1
  exact ⟨⟨hminus, (hrounds _ hminus []).2⟩, ⟨hkeyword, (hrounds _ hkeyword []).2⟩,
    ⟨hgroup, (hrounds _ hgroup []).2⟩, hor, (hrounds _ hor []).1⟩

end TextReader

end CardSearch
