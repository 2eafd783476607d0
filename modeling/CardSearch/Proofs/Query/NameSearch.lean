import CardSearch.Proofs.Catalog.Inserts
import CardSearch.Proofs.Evaluation.Room
import CardSearch.Proofs.Query.Boundaries
import CardSearch.Proofs.Query.Denial
import CardSearch.Proofs.Query.Sufficiency
import CardSearch.Proofs.Text.Letters
import Mathlib.Data.List.TakeWhile

/-!
# Names that are found by what is typed of them

What is typed of a name is put in lower case, parted at its strokes and freed of punctuation; the
catalog joins the faces of a name, frees it of punctuation and puts it in lower case. Of ASCII texts
both take each character by itself, and so neither the order nor the letter case matters: a piece of a
word that occurs in a face still occurs in the loose name, and a quotation of the displayed name occurs
in the searched one. A condition of such pieces holds of every version of the record.
-/

namespace CardSearch

namespace Text

/-- The texts differ in the case of ASCII letters only. -/
def SameLetters (cs ds : List Char) : Prop := cs.map Char.toLower = ds.map Char.toLower

instance (cs ds : List Char) : Decidable (SameLetters cs ds) := inferInstanceAs (Decidable (_ = _))

def Ascii (cs : List Char) : Prop := ∀ c ∈ cs, c.toNat < 128

variable {cs ds : List Char} {c x : Char}

private theorem SameLetters.ascii (h : SameLetters cs ds) (hds : Ascii ds) : Ascii cs := by
  intro c hc
  obtain ⟨d, hd, heq⟩ := List.mem_map.1 (h ▸ List.mem_map_of_mem hc)
  rw [← toNat_toLower_lt_iff, ← heq, toNat_toLower_lt_iff]
  exact hds d hd

/-- What is no letter occurs in both texts or in neither. -/
theorem SameLetters.mem_iff (h : SameLetters cs ds) (hx : x.isAlpha = false) : x ∈ cs ↔ x ∈ ds := by
  have hmem (es : List Char) : x ∈ es.map Char.toLower ↔ x ∈ es := by
    simp only [List.mem_map, toLower_eq_iff hx, exists_eq_right]
  rw [← hmem, h, hmem]

theorem Ascii.of_part (h : Ascii ds) (hle : cs <:+: ds) : Ascii cs :=
  fun c hc => h c (hle.subset hc)

theorem lowerChars_ascii (h : Ascii cs) : lowerChars cs = cs.map Char.toLower :=
  lowerAfter_ascii cs [] h

theorem SameLetters.lowerChars_eq (h : SameLetters cs ds) (hds : Ascii ds) :
    lowerChars cs = lowerChars ds := by
  rw [lowerChars_ascii (h.ascii hds), lowerChars_ascii hds]
  exact h

/-- A part of a text stands in its lower-case form where it stood before. -/
theorem lowerChars_part (hds : Ascii ds) (hle : cs <:+: ds) : lowerChars cs <:+: lowerChars ds := by
  rw [lowerChars_ascii hds, lowerChars_ascii (hds.of_part hle)]
  exact hle.map Char.toLower

private theorem isLoose_toLower (c : Char) : isLoose c.toLower = isLoose c := by
  have hletter {x : Char} (hx : isLoose x = true) : x.isAlpha = false := by
    simp only [isLoose, List.mem_cons, List.not_mem_nil, or_false, decide_eq_true_eq] at hx
    rcases hx with rfl | rfl | rfl | rfl | rfl | rfl | rfl | rfl | rfl | rfl <;> rfl
  rw [Bool.eq_iff_iff]
  constructor
  · intro h
    have hsame : c = c.toLower := (toLower_eq_iff (hletter h)).1 rfl
    exact hsame ▸ h
  · intro h
    have hsame : c.toLower = c := (toLower_eq_iff (hletter h)).2 rfl
    exact hsame.symm ▸ h

/-- It is the same to leave out the loose characters of an ASCII text before and after it is put in
lower case. -/
theorem stripLoose_lowerChars (h : Ascii cs) :
    stripLoose (lowerChars cs) = lowerChars (stripLoose cs) := by
  have hstripped : Ascii (stripLoose cs) := fun c hc => h c (List.mem_filter.1 hc).1
  rw [lowerChars_ascii h, lowerChars_ascii hstripped, stripLoose, stripLoose, List.filter_map]
  congr 2
  funext c
  exact congrArg (!·) (isLoose_toLower c)

/-- The first piece stands at the start of a text, and the others within it. -/
theorem splitAt_cases (p : Char → Bool) (cs : List Char) :
    ∃ first others, splitAt p cs = first :: others ∧ first <+: cs ∧ ∀ piece ∈ others, piece <:+: cs := by
  induction cs with
  | nil => exact ⟨[], [], rfl, List.prefix_rfl, List.forall_mem_nil _⟩
  | cons c cs ih =>
    obtain ⟨first, others, hpieces, hfirst, hothers⟩ := ih
    have hlater : ∀ piece ∈ others, piece <:+: c :: cs := fun piece hpiece =>
      List.infix_cons (hothers piece hpiece)
    rw [splitAt, hpieces]
    split
    · refine ⟨[], first :: others, rfl, List.nil_prefix, ?_⟩
      exact List.forall_mem_cons.2 ⟨List.infix_cons hfirst.isInfix, hlater⟩
    · exact ⟨c :: first, others, rfl, (List.prefix_cons_inj c).2 hfirst, hlater⟩

theorem infix_of_mem_splitAt {p : Char → Bool} {piece : List Char} (h : piece ∈ splitAt p cs) :
    piece <:+: cs := by
  obtain ⟨first, others, hpieces, hfirst, hothers⟩ := splitAt_cases p cs
  rw [hpieces] at h
  rcases List.mem_cons.1 h with rfl | h
  · exact hfirst.isInfix
  · exact hothers piece h

end Text

structure Leaf.HoldsOf (l : Leaf) (catalog : Catalog) (record : Nat) : Prop where
  ofCard : l.property.isPerVersion = false
  answer : l.matchesValues (catalog.get record l.property) = .ok true

/-- A condition finds every version of a record. An evaluation can only run out of room for sets, and
in arenas of the usual size it does not. -/
structure Condition.FindsAll (c : Condition) (catalog : Catalog) (record : Nat) : Prop where
  evaluate (ev : Evaluator) (subsets : SubsetStore) :
    match (ev.evaluate ⟨catalog, subsets, c⟩ record).versions with
    | .ok versions => versions = List.range ((catalog.versionCount? record).getD 1)
    | .error cause => ∃ e, cause = .set e
  ends (selection : SetSelection) (subsets : SubsetStore) :
    (catalog.versionCount? record).getD 1 ≤ mostVersions →
    ((Evaluator.new selection defaultArenaBytes).evaluate ⟨catalog, subsets, c⟩ record).versions =
      .ok (List.range ((catalog.versionCount? record).getD 1))

namespace Condition

/-- A condition that only asks for all of some leaves. -/
inductive Demands (M : Leaf → Prop) : Condition → Prop
  | nothing : Demands M (.const true)
  | one {l : Leaf} (h : M l) : Demands M (.leaf l)
  | all {ls : List Leaf} (h : ∀ l ∈ ls, M l) : Demands M (.all (ls.map .leaf))

namespace Demands

variable {M : Leaf → Prop} {c : Condition}

private theorem references_eq_nil (h : c.Demands M) : c.references = [] := by
  cases h with
  | nothing | one => simp [references]
  | all => exact references_all_leaf _

private theorem copies_eq_zero (h : c.Demands M) : c.copies = 0 := by
  cases h with
  | nothing | one => rfl
  | @all ls =>
    rw [copies]
    induction ls with
    | nil => rfl
    | cons l ls ih => simp_all [copiesOf, copies]

private theorem each (h : c.Demands M) : c.Each M := by
  cases h with
  | nothing => exact each_const true
  | one hl => exact each_leaf.2 hl
  | all hls => simpa using hls

private theorem holds (h : c.Demands M) {leaf : Leaf → Prop} (hleaf : ∀ l, M l → leaf l)
    (subset : String → Prop) : c.Holds leaf subset := by
  cases h with
  | nothing => simp
  | one hl => simpa using hleaf _ hl
  | all hls => simpa using fun l hl => hleaf l (hls l hl)

end Demands

end Condition

private theorem Leaf.HoldsOf.test_eq {l : Leaf} {catalog : Catalog} {record : Nat}
    (h : l.HoldsOf catalog record) (subsets : SubsetStore) (c : Condition) (v : Nat) :
    EvalContext.test ⟨catalog, subsets, c⟩ record l v = .ok true := by
  rw [EvalContext.test, EvalContext.getForVersion_of_card h.ofCard]
  exact h.answer

/-- Leaves that hold of a record are all satisfied by each of its versions. -/
theorem Condition.Demands.findsAll {c : Condition} {catalog : Catalog} {record : Nat}
    (h : c.Demands (Leaf.HoldsOf · catalog record)) : c.FindsAll catalog record := by
  have hanswers (subsets : SubsetStore) :
      c.Each (Answers (EvalContext.test ⟨catalog, subsets, c⟩ record)) :=
    h.each.mono fun l hl v => ⟨true, hl.test_eq subsets c v⟩
  have hfound {ev : Evaluator} {subsets : SubsetStore} {versions : List Nat}
      (heval : (ev.evaluate ⟨catalog, subsets, c⟩ record).versions = .ok versions) :
      versions = List.range ((catalog.versionCount? record).getD 1) := by
    have hfinds := Evaluator.finds_of_evaluate_of_references_eq_nil h.references_eq_nil heval
    apply eq_of_mem_iff_of_ascending hfinds.1 List.pairwise_lt_range
    intro v
    rw [hfinds.2 v _ (EvalContext.reads_matching ..), List.mem_range]
    exact and_iff_left (h.holds (fun l hl => hl.test_eq ∅ c v) _)
  constructor
  · intro ev subsets
    split
    · next versions heval => exact hfound heval
    · next cause heval =>
      rw [ev.evaluate_of_references_eq_nil h.references_eq_nil subsets ∅] at heval
      exact Evaluator.evaluate_error (fun id subset hsubset => by cases hsubset) (hanswers ∅) heval
  · intro selection subsets hcount
    have hsets : 1 + c.copies ≤ 128 := by
      rw [h.copies_eq_zero]
      decide
    have hends : ∃ versions, ((Evaluator.new selection defaultArenaBytes).evaluate
        ⟨catalog, subsets, c⟩ record).versions = .ok versions :=
      Evaluator.exists_versions h.references_eq_nil (hanswers subsets) hcount
        (Evaluator.hasRoom_new selection hsets hcount)
    obtain ⟨versions, heval⟩ := hends
    rw [heval, hfound heval]

theorem Leaf.HoldsOf.contains {p : Property} {part : List Char} {text : String} {catalog : Catalog}
    {record : Nat} (hp : p.isPerVersion = false) (hvalue : catalog.get record p = .one (.text text))
    (h : part <:+: text.toList) : (Leaf.contains p (String.ofList part)).HoldsOf catalog record where
  ofCard := hp
  answer := by
    have hvalue : catalog.get record (Leaf.contains p (String.ofList part)).property =
        .one (.text text) := hvalue
    have hmatch : Text.contains part text.toList = true := Text.contains_iff.2 h
    rw [Leaf.matchesValues, hvalue]
    simpa [Values.decide, Leaf.matchesDatum] using hmatch

namespace Term

open Condition Text

variable {cs ds after : List Char} {quote : Char}

private theorem demands_ofNameParts {M : Leaf → Prop} {parts : List (List Char)}
    (h : ∀ part ∈ parts, M (.contains .nameInexact (String.ofList part))) :
    (ofNameParts parts).condition.Demands M := by
  match parts with
  | [] => exact .nothing
  | [part] => exact .one (h part (by simp))
  | part :: part' :: parts =>
    have hleaves : ∀ l ∈ (part :: part' :: parts).map fun part =>
        Leaf.contains .nameInexact (String.ofList part), M l := by simpa using h
    exact .all hleaves

/-- The parts of a piece of a text stand in the text without its loose characters. -/
theorem infix_of_mem_nameParts (hle : cs <:+: ds) {part : List Char} (hpart : part ∈ nameParts cs) :
    part <:+: stripLoose ds := by
  obtain ⟨piece, hpiece, rfl⟩ := List.mem_map.1 (List.mem_filter.1 hpart).1
  exact ((infix_of_mem_splitAt hpiece).trans hle).filter _

private theorem word_eq_of_forall (h : ∀ c ∈ cs, endsWord c = false)
    (hafter : atBoundary after = true) :
    word (cs ++ after) = (cs, after) := by
  have hgoes : ∀ c ∈ cs, (!endsWord c) = true := by simpa using h
  have htake : cs.takeWhile (!endsWord ·) = cs := List.takeWhile_eq_self_iff.2 hgoes
  have hdrop : cs.dropWhile (!endsWord ·) = [] := List.dropWhile_eq_nil_iff.2 hgoes
  rw [word_append hafter, word, htake, hdrop]
  rfl

private theorem untilQuote_eq (h : quote ∉ cs) :
    untilQuote quote (cs ++ quote :: after) = some (cs, after) := by
  induction cs with
  | nil => simp [untilQuote]
  | cons c cs ih =>
    obtain ⟨hne, h⟩ := not_or.1 (List.mem_cons.not.1 h)
    simp [untilQuote, ih h, Ne.symm hne]

private theorem name_word (h : Unquoted cs) (hword : ∀ c ∈ cs, endsWord c = false)
    (hafter : atBoundary after = true) :
    name (cs ++ after) = (ofNameParts (nameParts (lowerChars cs)), after) := by
  rw [name, quotation_append hafter h, word_eq_of_forall hword hafter]

private theorem name_quotation (hquote : quote = '"' ∨ quote = '\'') (h : quote ∉ cs) :
    name (quote :: cs ++ quote :: after) = (ofLeaf (.contains .nameSearch (lowered cs)), after) := by
  have hquotation : quotation (quote :: cs ++ quote :: after) = some (cs, after) := by
    rw [List.cons_append, quotation, if_pos hquote, untilQuote_eq h]
  rw [name, hquotation]

end Term

namespace Catalog

open Text

variable {c : Catalog} {record : Nat} {faces : List String} {face : String} {w p : List Char}

/-- The parts of a piece of a face are found in the loose name. -/
theorem Reachable.demands_nameParts (h : c.Reachable) (hname : c.get record .name = .texts faces)
    (hascii : ∀ face ∈ faces, Ascii face.toList) (hface : face ∈ faces) (hw : w <:+: face.toList) :
    (Term.ofNameParts (Term.nameParts (lowerChars w))).condition.Demands
      (Leaf.HoldsOf · c record) := by
  have hvalue : c.get record .nameInexact =
      .one (.text (lower (String.ofList (stripLoose (String.join faces).toList)))) := by
    rw [h.get_eq record .nameInexact, Property.source, hname]
    rfl
  have hjoined : Ascii (String.join faces).toList := by
    intro d hd
    rw [String.toList_join, List.mem_flatMap] at hd
    obtain ⟨face, hface, hd⟩ := hd
    exact hascii face hface d hd
  have hle : w <:+: (String.join faces).toList := by
    rw [String.toList_join, List.flatMap_def]
    exact hw.trans (List.infix_of_mem_flatten (List.mem_map_of_mem hface))
  apply Term.demands_ofNameParts
  intro part hpart
  have hinfix := Term.infix_of_mem_nameParts (lowerChars_part hjoined hle) hpart
  rw [stripLoose_lowerChars hjoined] at hinfix
  exact Leaf.HoldsOf.contains rfl hvalue (by simpa [lower] using hinfix)

theorem ascii_display (hascii : ∀ face ∈ faces, Ascii face.toList) :
    Ascii (" // ".intercalate faces).toList := by
  have hbetween : Ascii " // ".toList := by simp [Ascii]
  rw [String.toList_intercalate]
  exact forall_mem_intercalate hbetween (by simpa [Ascii] using hascii)

/-- A piece of the displayed name is found in the searched name. -/
theorem Reachable.demands_quotation (h : c.Reachable) (hname : c.get record .name = .texts faces)
    (hascii : ∀ face ∈ faces, Ascii face.toList) (hp : p <:+: (" // ".intercalate faces).toList) :
    (Term.ofLeaf (.contains .nameSearch (Term.lowered p))).condition.Demands
      (Leaf.HoldsOf · c record) := by
  have hvalue : c.get record .nameSearch = .one (.text (lower (" // ".intercalate faces))) := by
    rw [h.get_eq record .nameSearch, Property.source, hname]
    rfl
  apply Condition.Demands.one
  exact Leaf.HoldsOf.contains rfl hvalue
    (by simpa [lower] using lowerChars_part (ascii_display hascii) hp)

/-- After any inserts, take a record whose name has faces and is in ASCII. A piece of a face without
blanks, closing parentheses and quotes is typed as a word, and a piece of the displayed name without a
quote is typed between two of these. In whatever letter case, all of it is read as the name that it
ends, and its condition finds every version of the record. -/
theorem name_finds_record (calls : List CatalogCall) {record : Nat} {faces : List String}
    (hne : faces ≠ []) (hname : (run calls).get record .name = .texts faces)
    (hascii : ∀ face ∈ faces, Ascii face.toList) :
    (∀ face ∈ faces, ∀ w, w <:+: face.toList → (∀ c ∈ w, c ∉ [' ', '\t', ')', '"', '\'']) →
      ∀ typed, SameLetters typed w → ∀ after, Term.atBoundary after = true →
        (Term.name (typed ++ after)).2 = after ∧
          (Term.name (typed ++ after)).1.condition.FindsAll (run calls) record) ∧
    ∃ display, (run calls).name? record = some display ∧
      display = " // ".intercalate faces ∧
      ∀ quote ∈ ['"', '\''], ∀ p, p <:+: display.toList → quote ∉ p →
        ∀ typed, SameLetters typed p → ∀ after,
          (Term.name (quote :: typed ++ quote :: after)).2 = after ∧
            (Term.name (quote :: typed ++ quote :: after)).1.condition.FindsAll (run calls) record := by
  have hreachable : (run calls).Reachable := reachable_run calls
  constructor
  · intro face hface w hw hplain typed htyped after hafter
    have habsent {x : Char} (hx : x.isAlpha = false) (hout : x ∈ [' ', '\t', ')', '"', '\'']) :
        x ∉ typed := fun hmem => hplain x ((htyped.mem_iff hx).1 hmem) hout
    have hunquoted : Term.Unquoted typed := ⟨habsent rfl (by simp), habsent rfl (by simp)⟩
    have hword : ∀ c ∈ typed, Term.endsWord c = false := by
      intro c hc
      by_contra hends
      rcases Term.endsWord_iff.1 (Bool.not_eq_false _ ▸ hends) with rfl | rfl | rfl
      all_goals exact habsent rfl (by simp) hc
    have hlower : lowerChars typed = lowerChars w :=
      htyped.lowerChars_eq ((hascii face hface).of_part hw)
    rw [Term.name_word hunquoted hword hafter, hlower]
    exact ⟨rfl, (hreachable.demands_nameParts hname hascii hface hw).findsAll⟩
  · refine ⟨_, ?_, rfl, ?_⟩
    · obtain ⟨face, others, rfl⟩ := List.exists_cons_of_ne_nil hne
      rw [name?, hname]
    · intro quote hquote p hp hout typed htyped after
      have hquote : quote = '"' ∨ quote = '\'' := by simpa using hquote
      have hletter : quote.isAlpha = false := by rcases hquote with rfl | rfl <;> rfl
      have hlower : Term.lowered typed = Term.lowered p :=
        congrArg String.ofList (htyped.lowerChars_eq ((ascii_display hascii).of_part hp))
      rw [Term.name_quotation hquote (mt (htyped.mem_iff hletter).1 hout), hlower]
      exact ⟨rfl, (hreachable.demands_quotation hname hascii hp).findsAll⟩

/-- A word with a stroke and a quotation across two faces, in other letter cases than in the name. -/
theorem name_finds_record_faces :
    let faces := ["R&D's Lair", "B.F.M. (Big/Left"]
    let catalog := run [.insert .name (.list [.list (faces.map .text)])]
    let word := (Term.name "(bIG/lEFT or".toList).1.condition
    let quotation := (Term.name "\"d'S LAIR // b.\" or".toList).1.condition
    catalog.get 0 .name = .texts faces ∧ (∀ face ∈ faces, Ascii face.toList) ∧
      ∀ condition ∈ [word, quotation],
        ((Evaluator.new {} defaultArenaBytes).evaluate ⟨catalog, ∅, condition⟩ 0).versions =
          .ok [0] := by
  intro faces catalog word quotation
  have hname : catalog.get 0 .name = .texts faces := by decide +kernel
  have hascii : ∀ face ∈ faces, Ascii face.toList := by simp [faces, Ascii]
  obtain ⟨hwords, display, -, rfl, hquotations⟩ := name_finds_record _ (by decide) hname hascii
  have hpiece : "(Big/Left".toList <:+: "B.F.M. (Big/Left".toList := ⟨"B.F.M. ".toList, [], rfl⟩
  have hacross : "D's Lair // B.".toList <:+: (" // ".intercalate faces).toList := by
    rw [String.toList_intercalate]
    exact ⟨"R&".toList, "F.M. (Big/Left".toList, rfl⟩
  have hword : word.FindsAll catalog 0 :=
    (hwords _ (by simp [faces]) _ hpiece (by simp) "(bIG/lEFT".toList (by decide) " or".toList rfl).2
  have hquotation : quotation.FindsAll catalog 0 :=
    (hquotations '"' (by simp) _ hacross (by simp) "d'S LAIR // b.".toList
      (by decide +kernel) " or".toList).2
  refine ⟨hname, hascii, ?_⟩
  rw [List.forall_mem_cons, List.forall_mem_singleton]
  exact ⟨hword.ends {} ∅ (by decide +kernel), hquotation.ends {} ∅ (by decide +kernel)⟩

end Catalog

end CardSearch
