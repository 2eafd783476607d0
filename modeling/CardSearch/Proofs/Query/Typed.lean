import CardSearch.Matching
import CardSearch.Proofs.Calendar.Days
import CardSearch.Proofs.Mana.Masks
import CardSearch.Proofs.Query.Leaves
import CardSearch.Proofs.Query.Steps
import Mathlib.Algebra.Group.Nat.Defs

/-!
# Queries as they are typed

A query is typed when it is read from a text, and simplified any number of times. Whatever keyword
a leaf of such a query comes from, it has one of few forms: each property is asked for with
literals of its own kind, costs count symbols that can be read, and dates lie in the calendar, so
that they have at most 53 bits.
-/

namespace CardSearch

inductive Leaf.Typed : Leaf → Prop
  | number (op : CompareOp) {p : Property} (hp : p ∈ [.colors, .identity, .cmc]) (n : Int32) :
    Typed (compare op p (.int n))
  | cost (op : CompareOp) {p : Property} (hp : p ∈ [.colors, .cost, .identity]) {c : ManaCost}
    (hc : c.Readable) : Typed (compare op p (.cost c))
  | parity (which : Parity) : Typed (parity which .cmc)
  | date (op : CompareOp) {d : Int} (hd : d.natAbs < 2 ^ 53) : Typed (compare op .releasedAt (.date d))
  | period {first last : Int} (hfirst : first.natAbs < 2 ^ 53) (hlast : last.natAbs < 2 ^ 53) :
    Typed (range .releasedAt (.date first) true (.date last) true)
  | rarity (op : CompareOp) (r : Rarity) : Typed (compare op .rarity (.rarity r))
  | text (op : CompareOp) {p : Property} (hp : p ∈ [.set, .formats]) (s : String) :
    Typed (compare op p (.text s))
  | reprint (op : CompareOp) (b : Bool) : Typed (compare op .reprint (.bool b))
  | contains {p : Property}
    (hp : p ∈ [.oracleSearch, .fullOracleSearch, .typeSearch, .nameSearch, .nameInexact])
    (part : String) : Typed (contains p part)

theorem Leaf.denialKeeps_typed : DenialKeeps Typed := by
  rintro l l' hl h
  cases h <;> cases hl <;> constructor <;> assumption

/-- A property that every condition has which is typed where subsets have certain names: it rests with
leaves and references, and typed leaves and references to named subsets have it. -/
structure Condition.Typable (names : Dict Subset) (M : Condition → Prop) : Prop
    extends Hereditary M where
  leaf (l : Leaf) : l.Typed → M (.leaf l)
  subset (name : String) (s : Subset) : names.get? name = some s → M (.subset s.id)

/-- A property that every condition has which is read where subsets have certain names: it passes from
parts to the whole, and typed leaves and references to named subsets have it. -/
structure Condition.Built (names : Dict Subset) (M : Condition → Prop) : Prop extends Carried M where
  leaf (l : Leaf) : l.Typed → M (.leaf l)
  subset (name : String) (s : Subset) : names.get? name = some s → M (.subset s.id)

theorem Condition.Typable.built {names : Dict Subset} {M : Condition → Prop}
    (hM : Typable names M) : Built names M where
  toCarried := hM.toHereditary.carried
  leaf := hM.leaf
  subset := hM.subset

inductive Term.Form (names : Dict Subset) : Term → Prop
  | leaf {l : Leaf} (h : l.Typed) : Form names (.ofLeaf l)
  | denial {l : Leaf} (h : l.Typed) : Form names ⟨.not (.leaf l), {l.property}⟩
  | parts {p : Property} {ls : List Leaf} (several : 2 ≤ ls.length)
    (h : ∀ l ∈ ls, l.Typed ∧ l.property = p) : Form names ⟨.all (ls.map .leaf), {p}⟩
  | truth : Form names ⟨.const true, ∅⟩
  | subset {name : String} {s : Subset} (h : names.get? name = some s) :
    Form names ⟨.subset s.id, s.query.properties⟩

namespace Term

open Condition

private theorem readable_of_colorWord? {word : String} {c : ManaCost}
    (h : colorWord? word = some c) : c.Readable := by
  have hletters {letters : List Char}
      (h : (letters.mapM colorOfLetter?).map ManaCost.ofColors = some c) : c.Readable := by
    obtain ⟨colors, -, rfl⟩ := Option.map_eq_some_iff.1 h
    exact ManaCost.readable_ofColors colors
  unfold colorWord? at h
  split at h
  · exact hletters h
  · exact hletters (Option.ite_none_left_eq_some.1 h).2

section Forms

variable {names : Dict Subset} {op : Operator} {cs rest : List Char} {t : Term}

private theorem form_releaseCondition? {op : CompareOp} {year : Int} {month day : Option Nat}
    {c : Condition} (h : releaseCondition? op year month day = some c) :
    (ofRelease c).Form names := by
  have hagainst {date? : Option Int} {c : Condition}
      (hdate : ∀ d, date? = some d → d.natAbs < 2 ^ 53)
      (h : (date?.map fun d => Condition.compare op .releasedAt (.date d)) = some c) :
      (ofRelease c).Form names := by
    obtain ⟨d, hd, rfl⟩ := Option.map_eq_some_iff.1 h
    exact .leaf (.date op (hdate d hd))
  have hperiod {month : Option Nat} {c : Condition}
      (h : releaseCondition?.period year month = some c) :
      ∃ l : Leaf, l.Typed ∧ l.property = .releasedAt ∧ c = .leaf l := by
    obtain ⟨first, hfirst, h⟩ := Option.bind_eq_some_iff.1 h
    obtain ⟨last, hlast, h⟩ := Option.bind_eq_some_iff.1 h
    cases h
    exact ⟨_, .period (Calendar.natAbs_lt_of_date hfirst)
      (Calendar.natAbs_lt_of_periodEnd? hlast), rfl, rfl⟩
  unfold releaseCondition? at h
  simp only at h
  split at h
  · cases h
  · split at h
    · exact hagainst (fun d => Calendar.natAbs_lt_of_date) h
    · cases h
    · split at h
      · obtain ⟨l, hl, hp, rfl⟩ := hperiod h
        rw [ofRelease, ← hp]
        exact .leaf hl
      · obtain ⟨c, hc, rfl⟩ := Option.map_eq_some_iff.1 h
        obtain ⟨l, hl, hp, rfl⟩ := hperiod hc
        rw [ofRelease, ← hp]
        exact .denial hl
      · exact hagainst (fun d => Calendar.natAbs_lt_of_periodEnd?) h
      · exact hagainst (fun d => Calendar.natAbs_lt_of_periodEnd?) h
      · exact hagainst (fun d => Calendar.natAbs_lt_of_date) h
      · exact hagainst (fun d => Calendar.natAbs_lt_of_date) h

private theorem form_colors? {colonOp : CompareOp} {p : Property} (hp : p ∈ [.colors, .identity])
    (h : colors? op colonOp p cs = some (t, rest)) : t.Form names := by
  have hnumber : [.colors, .identity] ⊆ [Property.colors, .identity, .cmc] := by decide
  have hcost : [.colors, .identity] ⊆ [Property.colors, .cost, .identity] := by decide
  simp only [colors?] at h
  split at h
  · cases h
    exact .leaf (.number _ (hnumber hp) _)
  · obtain ⟨colors, hcolors, heq⟩ := Option.map_eq_some_iff.1 h
    cases heq
    exact .leaf (.cost _ (hcost hp) (readable_of_colorWord? hcolors))

private theorem form_manaValue? (h : manaValue? op cs = some (t, rest)) : t.Form names := by
  simp only [manaValue?] at h
  split at h
  · cases h
    exact .leaf (.parity .even)
  · split at h
    · cases h
      exact .leaf (.parity .odd)
    · obtain ⟨n, -, heq⟩ := Option.map_eq_some_iff.1 h
      cases heq
      exact .leaf (.number _ (by decide) n)

theorem form_ofRelease {op : CompareOp} {year : Int} {month day : Option Nat} {rest' : List Char}
    (h : (releaseCondition? op year month day).map (ofRelease ·, rest') = some (t, rest)) :
    t.Form names := by
  obtain ⟨c, hc, heq⟩ := Option.map_eq_some_iff.1 h
  cases heq
  exact form_releaseCondition? hc

private theorem form_date? (h : date? op cs = some (t, rest)) : t.Form names := by
  unfold date? at h
  split at h
  · cases h
  · exact form_ofRelease h

private theorem form_year? (h : year? op cs = some (t, rest)) : t.Form names := by
  simp only [year?] at h
  split at h
  · cases h
  · exact form_ofRelease h

private theorem form_rarity? (h : rarity? op cs = some (t, rest)) : t.Form names := by
  unfold rarity? at h
  split at h
  · cases h
  · split at h
    · obtain ⟨rarity, -, heq⟩ := Option.map_eq_some_iff.1 h
      cases heq
      exact .leaf (.rarity _ rarity)
    · cases h

private theorem form_subset? (h : subset? names op cs = some (t, rest)) : t.Form names := by
  simp only [subset?, Option.ite_none_right_eq_some] at h
  obtain ⟨subset, hsubset, heq⟩ := Option.map_eq_some_iff.1 h.2
  cases heq
  exact .subset hsubset

private theorem form_ofKeyword? {k : Keyword} (h : ofKeyword? names op cs k = some (t, rest)) :
    t.Form names := by
  cases k <;> simp only [ofKeyword?] at h
  case color | identity => exact form_colors? (by decide) h
  case manaValue => exact form_manaValue? h
  case date => exact form_date? h
  case year => exact form_year? h
  case rarity => exact form_rarity? h
  case subset => exact form_subset? h
  case mana =>
    simp only [mana?, Option.ite_none_left_eq_some, Option.some.injEq, Prod.mk.injEq] at h
    obtain ⟨-, rfl, -⟩ := h
    exact .leaf (.cost _ (by decide) (ManaCost.readable_scan cs))
  case set =>
    cases h
    exact .leaf (.text _ (by decide) _)
  case format =>
    simp only [format?, Option.ite_none_right_eq_some, Option.some.injEq, Prod.mk.injEq] at h
    obtain ⟨-, rfl, -⟩ := h
    exact .leaf (.text _ (by decide) _)
  case reprinted | notReprinted =>
    simp only [reprint?, Option.ite_none_right_eq_some, Option.some.injEq, Prod.mk.injEq] at h
    obtain ⟨-, rfl, -⟩ := h
    exact .leaf (.reprint _ _)
  case oracle | fullOracle | type =>
    simp only [part?, Option.ite_none_right_eq_some, Option.some.injEq, Prod.mk.injEq] at h
    obtain ⟨-, rfl, -⟩ := h
    exact .leaf (.contains (by decide) _)

private theorem form_ofNameParts (parts : List (List Char)) : (ofNameParts parts).Form names := by
  have htyped (part : String) : (Leaf.contains .nameInexact part).Typed := .contains (by decide) part
  match parts with
  | [] => exact .truth
  | [part] => exact .leaf (htyped (String.ofList part))
  | part :: part' :: parts =>
    have hleaves : ∀ l ∈ (part :: part' :: parts).map fun part =>
        Leaf.contains .nameInexact (String.ofList part), l.Typed ∧ l.property = .nameInexact := by
      intro l hl
      obtain ⟨part, -, rfl⟩ := List.mem_map.1 hl
      exact ⟨htyped _, rfl⟩
    exact .parts (by simp) hleaves

private theorem form_name (cs : List Char) : (name cs).1.Form names := by
  unfold name
  split
  · exact .leaf (.contains (by decide) _)
  · exact form_ofNameParts _

theorem form_scan (names : Dict Subset) (cs : List Char) : (scan names cs).1.Form names := by
  unfold scan
  cases h : keywordTerm? names cs with
  | none => exact form_name cs
  | some scanned =>
    unfold keywordTerm? at h
    split at h
    · cases h
    · split at h
      · cases h
      · exact form_ofKeyword? h

end Forms

private theorem Form.condition {names : Dict Subset} {M : Condition → Prop} {t : Term}
    (h : t.Form names) (hM : Built names M) : M t.condition := by
  cases h with
  | leaf hl => exact hM.leaf _ hl
  | denial hl => exact hM.not (hM.leaf _ hl)
  | parts several hls =>
    apply hM.all (by simpa using several)
    intro c hc
    obtain ⟨l, hl, rfl⟩ := List.mem_map.1 hc
    exact hM.leaf l (hls l hl).1
  | truth => exact hM.truth
  | subset hs => exact hM.subset _ _ hs

end Term

namespace Token

theorem form_of_mem_scanAll {names : Dict Subset} {operand : Bool} {cs : List Char} {t : Term}
    (h : .term t ∈ scanAll names operand cs) : t.Form names := by
  fun_induction scanAll names operand cs
  case case1 =>
    obtain rfl := term.inj (List.mem_singleton.1 h)
    exact Term.form_scan names []
  case case2 => cases h
  case case5 ih | case9 ih =>
    rcases List.mem_cons.1 h with heq | h
    · exact term.inj heq ▸ Term.form_scan names _
    · exact ih h
  case case7 ih => exact ih h
  case case3 ih | case4 ih | case6 ih | case8 ih => exact ih (List.mem_of_ne_of_mem (by simp) h)

end Token

namespace OpenGroup

open Condition

def Each (M : Condition → Prop) (g : OpenGroup) : Prop :=
  (∀ c ∈ g.alternatives, M c) ∧ ∀ c ∈ g.conjuncts, M c

variable {M : Condition → Prop} {g : OpenGroup}

theorem each_new (n : Nat) : Each M { negations := n } :=
  ⟨List.forall_mem_nil _, List.forall_mem_nil _⟩

private theorem of_negate (hM : Carried M) (n : Nat) {c : Condition} (h : M c) :
    M (negate n c) := by
  induction n with
  | zero => exact h
  | succ n ih => exact hM.not ih

private theorem Each.push (h : g.Each M) {c : Condition} (hc : M c) : (g.push c).Each M :=
  ⟨h.1, List.forall_mem_cons.2 ⟨hc, h.2⟩⟩

theorem Each.endAlternative (hM : Carried M) (h : g.Each M) : g.endAlternative.Each M := by
  unfold OpenGroup.endAlternative
  split
  · exact h
  · next c hc =>
    have hc : M c := of_collapse hM.all (by simpa using h.2) hc
    exact ⟨List.forall_mem_cons.2 ⟨hc, h.1⟩, List.forall_mem_nil _⟩

theorem Each.condition? (hM : Carried M) (h : g.Each M) {c : Condition}
    (hc : g.condition? = some c) : M c :=
  of_collapse hM.any (by simpa using (h.endAlternative hM).1) hc

end OpenGroup

namespace QueryReader

open Condition

def Each (M : Condition → Prop) (r : QueryReader) : Prop :=
  r.group.Each M ∧ ∀ g ∈ r.outer, g.Each M

variable {M : Condition → Prop} {r r' : QueryReader}

private theorem Each.push (hM : Carried M) (h : r.Each M) {c : Condition} (hc : M c) :
    (r.push c).Each M :=
  ⟨h.1.push (OpenGroup.of_negate hM _ hc), h.2⟩

/-- One more token keeps a property of all conditions, if its own condition has it. -/
theorem Each.step (hM : Carried M) (h : r.Each M) {t : Token}
    (ht : ∀ term, t = .term term → M term.condition) (hstep : r.step t = some r') : r'.Each M := by
  cases t with
  | term term =>
    cases hstep
    exact Each.push (r := { r with properties := r.properties ∪ term.properties }) hM h (ht term rfl)
  | minus =>
    cases hstep
    exact h
  | or =>
    cases hstep
    exact ⟨h.1.endAlternative hM, h.2⟩
  | opening =>
    cases hstep
    exact ⟨OpenGroup.each_new _, List.forall_mem_cons.2 h⟩
  | closing =>
    simp only [QueryReader.step] at hstep
    split at hstep
    · cases hstep
    · next g outer houter =>
      have houter : g.Each M ∧ ∀ g ∈ outer, g.Each M := List.forall_mem_cons.1 (houter ▸ h.2)
      split at hstep
      · cases hstep
        exact houter
      · next c hc =>
        cases hstep
        exact Each.push (r := { r with negations := r.group.negations, group := g, outer }) hM houter
          (h.1.condition? hM hc)

theorem Each.steps (hM : Carried M) {ts : List Token} (h : r.Each M)
    (hts : ∀ term, .term term ∈ ts → M term.condition) (hsteps : r.steps ts = some r') :
    r'.Each M := by
  induction ts generalizing r with
  | nil =>
    cases hsteps
    exact h
  | cons t ts ih =>
    obtain ⟨next, hnext, hsteps⟩ := Option.bind_eq_some_iff.1 (steps_cons .. ▸ hsteps)
    have hnext : next.Each M := h.step hM (fun term ht => hts term (by simp [ht])) hnext
    exact ih hnext (fun term hterm => hts term (by simp [hterm])) hsteps

/-- Where all groups are closed, the condition of the text has the property. -/
theorem Each.finish (hM : Carried M) (h : r.Each M) (houter : r.outer = []) :
    M r.finish.condition := by
  rw [QueryReader.finish, houter]
  cases hc : r.group.condition? with
  | none => exact hM.truth
  | some c => exact h.1.condition? hM hc

theorem each_new : QueryReader.Each M {} := ⟨OpenGroup.each_new 0, List.forall_mem_nil _⟩

end QueryReader

namespace Condition.Built

variable {names : Dict Subset} {M : Condition → Prop}

theorem of_scanAll (hM : Built names M) {operand : Bool} {cs : List Char} {t : Term}
    (h : .term t ∈ Token.scanAll names operand cs) : M t.condition :=
  (Token.form_of_mem_scanAll h).condition hM

/-- The condition that is read from a text has the property, or else it is false since parentheses do
not match. -/
theorem read (hM : Built names M) (text : String) :
    M (Query.read names text).condition ∨ (Query.read names text).condition = .const false := by
  unfold Query.read
  cases hsteps : QueryReader.steps {} (Token.scanAll names false text.toList) with
  | none => exact .inr (QueryReader.condition_run_of_none hsteps)
  | some r =>
    have hr : r.Each M := QueryReader.each_new.steps hM.toCarried (fun term => hM.of_scanAll) hsteps
    rw [QueryReader.run_of_steps hsteps]
    cases houter : r.outer with
    | nil => exact .inl (hr.finish hM.toCarried houter)
    | cons g outer => exact .inr (by rw [QueryReader.finish, houter])

end Condition.Built

theorem Condition.Typable.read {names : Dict Subset} {M : Condition → Prop}
    (hM : Typable names M) (text : String) : M (Query.read names text).condition := by
  obtain h | hfalse := hM.built.read text
  · exact h
  · rw [hfalse]
    exact hM.const false

namespace Query

open Condition

private theorem typable_each (names : Dict Subset) : Typable names (Each Leaf.Typed) where
  toHereditary := hereditary_each Leaf.Typed
  leaf _ := each_leaf.2
  subset _ s _ := each_subset s.id

/-- A query as it is typed: read from a text, and simplified any number of times. -/
inductive Typed : Query → Prop
  | read (names : Dict Subset) (text : String) : Typed (Query.read names text)
  | simplify (subsets : Dict Subset) {q : Query} (h : Typed q) : Typed (q.simplify subsets)

theorem Typed.each_typed {q : Query} (h : q.Typed) : q.condition.Each Leaf.Typed := by
  induction h with
  | read names text => exact (typable_each names).read text
  | simplify subsets _ ih => exact Simplified.each_ofCondition Leaf.denialKeeps_typed subsets ih

end Query

end CardSearch
