import CardSearch.Query.Reading

/-!
# What stands behind a boundary

A term ends at the latest where a word does, unless it is in quotes. So what is read at the start
of a text without quotes does not depend on what follows the text, if a word ends there; and the
tokens of the text come before those of what follows.
-/

namespace CardSearch

/-- What a reader gives when more text follows the rest that it leaves. -/
def followedBy {α : Type} (after : List Char) (result : α × List Char) : α × List Char :=
  (result.1, result.2 ++ after)

namespace Term

/-- There are no quotes in a text. -/
def Unquoted (cs : List Char) : Prop := '"' ∉ cs ∧ '\'' ∉ cs

theorem Unquoted.of_suffix {cs rest : List Char} (h : Unquoted cs) (hrest : rest <:+ cs) :
    Unquoted rest :=
  ⟨fun hmem => h.1 (hrest.subset hmem), fun hmem => h.2 (hrest.subset hmem)⟩

variable {cs after : List Char}

theorem endsWord_iff {c : Char} : endsWord c = true ↔ c = ' ' ∨ c = '\t' ∨ c = ')' := by
  simp [endsWord, or_assoc]

theorem atBoundary_append (h : atBoundary after = true) (cs : List Char) :
    atBoundary (cs ++ after) = atBoundary cs := by
  cases cs with
  | nil => exact h
  | cons c cs => rfl

theorem isDigit_of_endsWord {c : Char} (hc : endsWord c = true) : c.isDigit = false := by
  rcases endsWord_iff.1 hc with rfl | rfl | rfl <;> rfl

theorem ofLetter?_of_endsWord {c : Char} (hc : endsWord c = true) :
    ManaMark.ofLetter? c = none := by
  rcases endsWord_iff.1 hc with rfl | rfl | rfl <;> rfl

theorem sameLetter_of_endsWord {l c : Char} (hl : endsWord l = false) (hc : endsWord c = true) :
    sameLetter l c = false := by
  have hlower : c.toLower = c := by rcases endsWord_iff.1 hc with rfl | rfl | rfl <;> rfl
  have hne : c ≠ l := by
    rintro rfl
    exact absurd (hc.symm.trans hl) (by decide)
  have hlong : c ≠ 'ſ' := by
    rintro rfl
    exact absurd hc (by decide)
  simp [sameLetter, hlower, hne, hlong]

theorem quotation_cons {c : Char} (h : Unquoted (c :: cs)) (rest : List Char) :
    quotation (c :: rest) = none := by
  refine if_neg ?_
  rintro (rfl | rfl)
  · exact h.1 (by simp)
  · exact h.2 (by simp)

theorem quotation_eq_none (h : Unquoted cs) : quotation cs = none := by
  cases cs with
  | nil => rfl
  | cons c cs => exact quotation_cons h cs

section Words

variable (h : atBoundary after = true)
include h

/-- A run of characters that go on within words ends at the boundary. -/
theorem run_append {p : Char → Bool} (hp : ∀ c, endsWord c = true → p c = false) (cs : List Char) :
    (cs ++ after).takeWhile p = cs.takeWhile p ∧
      (cs ++ after).dropWhile p = cs.dropWhile p ++ after := by
  induction cs with
  | nil =>
    cases after with
    | nil => exact ⟨rfl, rfl⟩
    | cons c after => simp [hp c h]
  | cons c cs ih =>
    cases hc : p c with
    | true => simp [hc, ih]
    | false => simp [hc]

theorem word_append (cs : List Char) : word (cs ++ after) = followedBy after (word cs) := by
  have hrun := run_append h (p := (!endsWord ·)) (by simp) cs
  rw [word, hrun.1, hrun.2]
  rfl

theorem quotation_append (hcs : Unquoted cs) : quotation (cs ++ after) = none := by
  cases cs with
  | nil =>
    cases after with
    | nil => rfl
    | cons c after =>
      rcases endsWord_iff.1 h with rfl | rfl | rfl <;> simp [quotation]
  | cons c cs => exact quotation_cons hcs (cs ++ after)

theorem phrase_append (hcs : Unquoted cs) : phrase (cs ++ after) = followedBy after (phrase cs) := by
  rw [phrase, phrase, quotation_append h hcs, quotation_eq_none hcs, Option.getD_none,
    Option.getD_none, word_append h]

/-- No character of a word is found where there was none. -/
theorem append_ne_cons {c : Char} (hc : endsWord c = false) (hcs : ∀ rest, cs ≠ c :: rest)
    (rest : List Char) : cs ++ after ≠ c :: rest := by
  cases cs with
  | nil =>
    rintro rfl
    exact absurd h (by simp [atBoundary, hc])
  | cons d cs =>
    intro heq
    cases heq
    exact hcs cs rfl

private theorem scan?_append (cs : List Char) :
    Operator.scan? (cs ++ after) = (Operator.scan? cs).map (followedBy after) := by
  fun_cases Operator.scan? cs
  case case6 rest hrest =>
    have hne := append_ne_cons h (c := '=') rfl fun rest heq => hrest rest heq
    rw [List.cons_append, Operator.scan?]
    · rfl
    · exact fun rest heq => hne rest heq
  case case7 rest hrest =>
    have hne := append_ne_cons h (c := '=') rfl fun rest heq => hrest rest heq
    rw [List.cons_append, Operator.scan?]
    · rfl
    · exact fun rest heq => hne rest heq
  case case8 hcolon heq hne hle hge hlt hgt =>
    have hnot : ∀ rest, cs ++ after ≠ '!' :: '=' :: rest := by
      intro rest happend
      cases cs with
      | nil =>
        rw [List.nil_append] at happend
        rw [happend] at h
        cases h
      | cons d cs =>
        obtain ⟨rfl, htail⟩ := List.cons.inj happend
        exact append_ne_cons h (c := '=') rfl (fun rest heq => hne rest (heq ▸ rfl)) rest htail
    rw [Operator.scan?]
    · rfl
    · exact append_ne_cons h rfl hcolon
    · exact append_ne_cons h rfl heq
    · exact hnot
    · exact fun rest happend => append_ne_cons h rfl hlt _ happend
    · exact fun rest happend => append_ne_cons h rfl hgt _ happend
    · exact append_ne_cons h rfl hlt
    · exact append_ne_cons h rfl hgt
  all_goals rfl

theorem keyed?_append (cs : List Char) : keyed? (cs ++ after) =
    (keyed? cs).map fun (keyword, op, rest) => (keyword, op, rest ++ after) := by
  induction cs with
  | nil =>
    cases after with
    | nil => rfl
    | cons c after =>
      have hc : endsWord c = true := h
      simp [keyed?, hc]
  | cons c cs ih =>
    rw [List.cons_append, keyed?, keyed?, ← List.cons_append, scan?_append h]
    split
    · rfl
    · cases hscan : Operator.scan? (c :: cs) with
      | none =>
        rw [ih]
        cases keyed? cs <;> rfl
      | some scanned =>
        obtain ⟨op, rest⟩ := scanned
        simp only [Option.map_some, followedBy, atBoundary_append h]
        split <;> rfl

theorem digits?_append (n : Nat) (cs : List Char) :
    digits? n (cs ++ after) = (digits? n cs).map (followedBy after) := by
  by_cases hlength : n ≤ cs.length
  · rw [digits?, digits?, List.take_append_of_le_length hlength,
      List.drop_append_of_le_length hlength]
    split <;> rfl
  · have hshort : digits? n cs = none := by
      refine if_neg fun hread => ?_
      have hlong := hread.1
      rw [List.length_take] at hlong
      omega
    rw [hshort]
    refine if_neg fun hread => ?_
    obtain ⟨hlong, hdigits⟩ := hread
    cases after with
    | nil =>
      rw [List.append_nil, List.length_take] at hlong
      omega
    | cons c after =>
      obtain ⟨k, hk⟩ : ∃ k, n - cs.length = k + 1 := ⟨n - cs.length - 1, by omega⟩
      rw [List.take_append, hk, List.take_succ_cons, List.all_append, List.all_cons,
        isDigit_of_endsWord h] at hdigits
      simp at hdigits

private theorem datePart?_append (cs : List Char) :
    datePart? (cs ++ after) = (datePart? cs).map (followedBy after) := by
  fun_cases datePart? cs
  case case1 cs => exact digits?_append h 2 cs
  case case2 hstroke =>
    rw [datePart?]
    · rfl
    · exact append_ne_cons h rfl hstroke

theorem dateDigits?_append (cs : List Char) : dateDigits? (cs ++ after) =
    (dateDigits? cs).map fun (year, month, day, rest) => (year, month, day, rest ++ after) := by
  rw [dateDigits?, dateDigits?, digits?_append h 4]
  cases digits? 4 cs with
  | none => rfl
  | some read =>
    obtain ⟨year, rest⟩ := read
    simp only [Option.map_some, followedBy, datePart?_append h]
    cases datePart? rest with
    | none => rfl
    | some read =>
      obtain ⟨month, rest⟩ := read
      simp only [Option.map_some, followedBy, datePart?_append h]
      cases datePart? rest <;> rfl

theorem markScan_append (cs : List Char) :
    ManaMark.scan (cs ++ after) = (ManaMark.scan cs).map (followedBy after) := by
  cases cs with
  | nil =>
    cases after with
    | nil => rfl
    | cons c after => simp [ManaMark.scan, isDigit_of_endsWord h, ofLetter?_of_endsWord h]
  | cons c cs =>
    have hrun := run_append h (p := Char.isDigit) (fun c => isDigit_of_endsWord) cs
    rw [List.cons_append, ManaMark.scan, ManaMark.scan, hrun.1, hrun.2]
    split
    · dsimp only
      split <;> rfl
    · cases ManaMark.ofLetter? c <;> rfl

private theorem scanMarks_append (more : Nat) (cs : List Char) :
    ManaUnit.scanMarks more (cs ++ after) =
      (ManaUnit.scanMarks more cs).map (followedBy after) := by
  fun_induction ManaUnit.scanMarks more cs with
  | case1 more cs mark rest hscan =>
    rw [ManaUnit.scanMarks, markScan_append h, hscan]
    rfl
  | case2 cs mark rest hscan =>
    rw [ManaUnit.scanMarks, markScan_append h, hscan]
    rfl
  | case3 cs mark rest hscan more ih =>
    rw [ManaUnit.scanMarks, markScan_append h, hscan]
    simp only [Option.map_some, followedBy, List.cons_append, ih]
    cases ManaUnit.scanMarks more rest <;> rfl
  | case4 more cs hclosing hstroke =>
    rw [ManaUnit.scanMarks, markScan_append h]
    cases hscan : ManaMark.scan cs with
    | none => rfl
    | some scanned =>
      obtain ⟨mark, rest⟩ := scanned
      have hclosing := append_ne_cons h (c := '\x7d') rfl
        fun rest' heq => hclosing mark rest' (heq ▸ hscan)
      have hstroke := append_ne_cons h (c := '/') rfl
        fun rest' heq => hstroke mark rest' (heq ▸ hscan)
      simp only [Option.map_some, Option.map_none, followedBy]
      split
      · next heq => exact absurd (Prod.mk.inj (Option.some.inj heq)).2 (hclosing _)
      · next heq => exact absurd (Prod.mk.inj (Option.some.inj heq)).2 (hstroke _)
      · rfl

private theorem unitScan_append (cs : List Char) :
    ManaUnit.scan (cs ++ after) = (ManaUnit.scan cs).map (followedBy after) := by
  fun_cases ManaUnit.scan cs
  case case1 cs marks rest hmarks hdistinct =>
    rw [List.cons_append, ManaUnit.scan, scanMarks_append h, hmarks]
    simp only [Option.map_some, followedBy, if_pos hdistinct]
    cases ManaUnit.ofMarks? marks <;> rfl
  case case2 cs marks rest hmarks hdistinct =>
    rw [List.cons_append, ManaUnit.scan, scanMarks_append h, hmarks]
    simp only [Option.map_some, followedBy, if_neg hdistinct, Option.map_none]
  case case3 cs hmarks =>
    rw [List.cons_append, ManaUnit.scan, scanMarks_append h, hmarks]
    rfl
  case case4 mark rest hbrace hmark =>
    rw [ManaUnit.scan, markScan_append h, hmark]
    · simp only [Option.map_some, followedBy]
      cases ManaUnit.ofMarks? [mark] <;> rfl
    · exact append_ne_cons h rfl hbrace
  case case5 hbrace hmark =>
    rw [ManaUnit.scan, markScan_append h, hmark]
    · rfl
    · exact append_ne_cons h rfl hbrace

private theorem unitScanAll_append (cs : List Char) :
    ManaUnit.scanAll (cs ++ after) = followedBy after (ManaUnit.scanAll cs) := by
  fun_induction ManaUnit.scanAll cs with
  | case1 cs hscan =>
    have happend := unitScan_append h cs
    rw [hscan] at happend
    rw [ManaUnit.scanAll.eq_def]
    split
    · rfl
    · next heq =>
      rw [happend] at heq
      cases heq
  | case2 cs unit rest hscan _ tail ih =>
    have happend := unitScan_append h cs
    rw [hscan] at happend
    rw [ManaUnit.scanAll.eq_def]
    split
    · next heq =>
      rw [happend] at heq
      cases heq
    · next heq =>
      rw [happend] at heq
      cases heq
      simp only [ih]
      rfl

private theorem costScan_append (cs : List Char) :
    ManaCost.scan (cs ++ after) = followedBy after (ManaCost.scan cs) := by
  rw [ManaCost.scan, ManaCost.scan, unitScanAll_append h]
  rfl

private theorem afterWord?_append {w : List Char} (hw : ∀ l ∈ w, endsWord l = false)
    (cs : List Char) : afterWord? w (cs ++ after) = (afterWord? w cs).map (· ++ after) := by
  induction w generalizing cs with
  | nil => rfl
  | cons l ls ih =>
    obtain ⟨hl, hls⟩ := List.forall_mem_cons.1 hw
    cases cs with
    | nil =>
      cases after with
      | nil => rfl
      | cons c after => simp [afterWord?, sameLetter_of_endsWord hl h]
    | cons c cs =>
      rw [List.cons_append, afterWord?, afterWord?, ih hls]
      split <;> rfl

private theorem findSome?_rarityWords (cs : List Char) :
    rarityWords.findSome? (fun w => afterWord? w.toList (cs ++ after)) =
      (rarityWords.findSome? fun w => afterWord? w.toList cs).map (· ++ after) := by
  have hwords : ∀ w ∈ rarityWords, ∀ l ∈ w.toList, endsWord l = false := by
    simp [rarityWords, endsWord]
  generalize rarityWords = words at hwords
  induction words with
  | nil => rfl
  | cons w words ih =>
    obtain ⟨hw, hwords⟩ := List.forall_mem_cons.1 hwords
    rw [List.findSome?_cons, List.findSome?_cons, afterWord?_append h hw]
    cases afterWord? w.toList cs with
    | none => exact ih hwords
    | some rest => rfl

private theorem rarity?_append (op : Operator) (cs : List Char) :
    rarity? op (cs ++ after) = (rarity? op cs).map (followedBy after) := by
  rw [rarity?, rarity?, findSome?_rarityWords h]
  cases hfound : rarityWords.findSome? fun w => afterWord? w.toList cs with
  | none => rfl
  | some rest =>
    obtain ⟨w, -, hw⟩ := List.exists_of_findSome?_eq_some hfound
    have hle := (afterWord?_suffix hw).length_le
    have htake : (cs ++ after).take ((cs ++ after).length - (rest ++ after).length) =
        cs.take (cs.length - rest.length) := by
      rw [List.length_append, List.length_append, Nat.add_sub_add_right,
        List.take_append_of_le_length (by omega)]
    simp only [Option.map_some, atBoundary_append h, htake]
    split
    · cases Rarity.ofWord? (lowered (cs.take (cs.length - rest.length))) <;> rfl
    · rfl

private theorem ofKeyword?_append (names : Dict Subset) (op : Operator) (hcs : Unquoted cs)
    (k : Keyword) :
    ofKeyword? names op (cs ++ after) k = (ofKeyword? names op cs k).map (followedBy after) := by
  have hword := word_append h cs
  have hphrase := phrase_append h hcs
  cases k <;> simp only [ofKeyword?]
  case color | identity =>
    simp only [colors?, hword, followedBy]
    split
    · rfl
    · cases colorWord? (lowered (word cs).1) <;> rfl
  case mana =>
    simp only [mana?, costScan_append h, followedBy]
    split <;> rfl
  case manaValue =>
    simp only [manaValue?, hword, followedBy]
    split
    · rfl
    · split
      · rfl
      · cases Text.readInt32? (Text.lowerChars (word cs).1) <;> rfl
  case date =>
    simp only [date?, dateDigits?_append h]
    cases dateDigits? cs with
    | none => rfl
    | some read =>
      obtain ⟨year, month, day, rest⟩ := read
      simp only [Option.map_some, Option.map_map]
      rfl
  case year =>
    simp only [year?, hword, followedBy]
    split
    · rfl
    · next year _ =>
      simp only [Option.map_map]
      rfl
  case rarity => exact rarity?_append h op cs
  case set =>
    simp only [set?, hword]
    rfl
  case format =>
    simp only [format?, hword, followedBy]
    split <;> rfl
  case reprinted | notReprinted =>
    simp only [reprint?, hword, followedBy]
    split <;> rfl
  case oracle | fullOracle | type =>
    simp only [part?, hphrase, followedBy]
    split <;> rfl
  case subset =>
    simp only [subset?, hphrase, followedBy]
    split
    · cases names.get? (String.ofList (phrase cs).1) <;> rfl
    · rfl

private theorem name_append (hcs : Unquoted cs) :
    name (cs ++ after) = followedBy after (name cs) := by
  simp only [name, quotation_append h hcs, quotation_eq_none hcs, word_append h]
  rfl

private theorem keywordTerm?_append (names : Dict Subset) (hcs : Unquoted cs) :
    keywordTerm? names (cs ++ after) = (keywordTerm? names cs).map (followedBy after) := by
  rw [keywordTerm?, keywordTerm?, keyed?_append h]
  cases hkeyed : keyed? cs with
  | none => rfl
  | some keyed =>
    obtain ⟨keyword, op, rest⟩ := keyed
    obtain ⟨c, hrest⟩ := keyed?_suffix hkeyed
    have hunquoted := hcs.of_suffix ((List.suffix_cons c rest).trans hrest)
    simp only [Option.map_some]
    cases Keyword.ofWord? (lowered keyword) with
    | none => rfl
    | some k => exact ofKeyword?_append h names op hunquoted k

/-- A term at the start of a text without quotes is the same whatever follows the text. -/
theorem scan_append (names : Dict Subset) (hcs : Unquoted cs) :
    scan names (cs ++ after) = followedBy after (scan names cs) := by
  rw [scan, scan, keywordTerm?_append h names hcs, name_append h hcs]
  cases keywordTerm? names cs <;> rfl

end Words

end Term

namespace Token

variable {names : Dict Subset}

theorem scanAll_opening (operand : Bool) (cs : List Char) :
    scanAll names operand ('(' :: cs) = opening :: scanAll names false cs := by
  rw [scanAll]
  rfl

theorem scanAll_minus (operand : Bool) (cs : List Char) :
    scanAll names operand ('-' :: cs) = minus :: scanAll names true cs := by
  rw [scanAll]
  rfl

theorem scanAll_closing (cs : List Char) :
    scanAll names false (')' :: cs) = closing :: scanAll names false cs := by
  rw [scanAll]
  rfl

theorem scanAll_blank {c : Char} (hword : Term.endsWord c = true) (hclosing : c ≠ ')')
    (cs : List Char) : scanAll names false (c :: cs) = scanAll names false cs := by
  rw [scanAll]
  rcases Term.endsWord_iff.1 hword with rfl | rfl | rfl
  · rfl
  · rfl
  · exact absurd rfl hclosing

theorem scanAll_operand {c : Char} (hopening : c ≠ '(') (hminus : c ≠ '-') (cs : List Char) :
    scanAll names true (c :: cs) = term (Term.scan names (c :: cs)).1 ::
      scanAll names false (Term.scan names (c :: cs)).2 := by
  rw [scanAll]
  simp [hopening, hminus]

theorem scanAll_or {c : Char} {cs : List Char} (h : startsWithOr (c :: cs) = true) :
    scanAll names false (c :: cs) = or :: scanAll names false (cs.drop 1) := by
  have hne : ∀ d : Char, d.toLower ≠ 'o' → c ≠ d := by
    rintro d hd rfl
    cases cs <;> simp_all [startsWithOr]
  have hword : Term.endsWord c = false := by
    simp [Term.endsWord, hne ' ' (by decide), hne '\t' (by decide), hne ')' (by decide)]
  rw [scanAll]
  simp [hne '(' (by decide), hne '-' (by decide), hne ')' (by decide), hword, h]

theorem scanAll_term {c : Char} {cs : List Char} (hopening : c ≠ '(') (hminus : c ≠ '-')
    (hword : Term.endsWord c = false) (hor : startsWithOr (c :: cs) = false) :
    scanAll names false (c :: cs) = term (Term.scan names (c :: cs)).1 ::
      scanAll names false (Term.scan names (c :: cs)).2 := by
  have hclosing : c ≠ ')' := by
    rintro rfl
    cases hword
  rw [scanAll]
  simp [hopening, hminus, hclosing, hword, hor]

private theorem startsWithOr_append {after : List Char} (h : Term.atBoundary after = true)
    (c : Char) (cs : List Char) : startsWithOr (c :: cs ++ after) = startsWithOr (c :: cs) := by
  cases cs with
  | nil =>
    cases after with
    | nil => rfl
    | cons d after =>
      have hd : d.toLower ≠ 'r' := by
        rcases Term.endsWord_iff.1 h with rfl | rfl | rfl <;> decide
      simp [startsWithOr, hd]
  | cons d cs => simp only [startsWithOr, List.cons_append, Term.atBoundary_append h]

/-- The tokens of a text without quotes stand before those of what follows it. -/
theorem scanAll_append {after : List Char} (h : Term.atBoundary after = true) (operand : Bool)
    {cs : List Char} (hcs : Term.Unquoted cs) :
    scanAll names operand (cs ++ after) = scanAll names operand cs ++ scanAll names false after := by
  have htail {c : Char} {cs : List Char} (hcs : Term.Unquoted (c :: cs)) : Term.Unquoted cs :=
    hcs.of_suffix (List.suffix_cons c cs)
  fun_induction scanAll names operand cs with
  | case1 =>
    -- the operand is empty, whatever follows the boundary
    have hempty : (Term.scan names []).2 = [] := List.suffix_nil.1 (Term.scan_suffix names [])
    cases after with
    | nil => rw [scanAll, List.append_nil, scanAll, if_pos rfl, if_neg (by decide), List.append_nil]
    | cons c after =>
      have hscan := Term.scan_append h names hcs
      rw [List.nil_append, followedBy, hempty] at hscan
      have hne : c ≠ '(' ∧ c ≠ '-' := by
        rcases Term.endsWord_iff.1 h with rfl | rfl | rfl <;> decide
      rw [List.nil_append, scanAll_operand hne.1 hne.2, hscan]
      rfl
  | case2 operand hoperand =>
    rw [Bool.not_eq_true] at hoperand
    subst hoperand
    rfl
  | case3 operand c cs hc ih =>
    obtain rfl := eq_of_beq hc
    rw [List.cons_append, scanAll_opening, ih (htail hcs), List.cons_append]
  | case4 operand c cs _ hc ih =>
    obtain rfl := eq_of_beq hc
    rw [List.cons_append, scanAll_minus, ih (htail hcs), List.cons_append]
  | case5 c cs hopening hminus scanned _ ih =>
    have hscan := Term.scan_append h names hcs
    rw [List.cons_append] at hscan
    rw [List.cons_append, scanAll_operand (by simpa using hopening) (by simpa using hminus), hscan,
      List.cons_append, ← ih (hcs.of_suffix (Term.scan_suffix names _))]
    rfl
  | case6 operand c cs _ _ hoperand hc ih =>
    rw [Bool.not_eq_true] at hoperand
    subst hoperand
    obtain rfl := eq_of_beq hc
    rw [List.cons_append, scanAll_closing, ih (htail hcs), List.cons_append]
  | case7 operand c cs hopening hminus hoperand hclosing hword ih =>
    rw [Bool.not_eq_true] at hoperand
    subst hoperand
    rw [List.cons_append, scanAll_blank hword (by simpa using hclosing), ih (htail hcs)]
  | case8 operand c cs hopening hminus hoperand hclosing hword hor ih =>
    rw [Bool.not_eq_true] at hoperand
    subst hoperand
    have happend := startsWithOr_append h c cs
    have hdrop : (cs ++ after).drop 1 = cs.drop 1 ++ after := by
      cases cs with
      | nil => cases hor
      | cons d cs => rfl
    have hunquoted : Term.Unquoted (cs.drop 1) := (htail hcs).of_suffix (List.drop_suffix 1 cs)
    rw [List.cons_append] at happend
    rw [List.cons_append, scanAll_or (happend.trans hor), hdrop, ih hunquoted, List.cons_append]
  | case9 operand c cs hopening hminus hoperand hclosing hword hor scanned _ _ ih =>
    rw [Bool.not_eq_true] at hoperand
    subst hoperand
    have hscan := Term.scan_append h names hcs
    have happend := startsWithOr_append h c cs
    rw [List.cons_append] at hscan happend
    rw [List.cons_append, scanAll_term (by simpa using hopening) (by simpa using hminus)
      (by simpa using hword) (by simpa [happend] using hor), hscan, List.cons_append,
      ← ih (hcs.of_suffix (Term.scan_suffix names _))]
    rfl

end Token

end CardSearch
