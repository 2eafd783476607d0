import CardSearch.Proofs.Mana.Groups
import Mathlib.Data.Finset.Insert
import Mathlib.Data.Finset.Dedup

/-!
# The grammar of mana costs

A symbol is one of eight letters, a number of all digits that stand together, or a group of one to
three different alternatives that make up one of a few sets. Reading takes the longest sequence of
symbols there is: a symbol is decided by the text at its start, so any other sequence is the beginning
of that one. Which symbol a group is depends on its set of alternatives alone, and apart from the
amounts of single numbers the key tells the set.
-/

namespace CardSearch

namespace ManaMark

def letter? : ManaMark → Option Char
  | number _ => none
  | color c => some c.letter
  | colorless => some 'C'
  | chosen => some 'X'
  | snow => some 'S'
  | phyrexian => some 'P'

/-- How a mark is written: as its letter in either case, or as the digits of a number that fits 32
bits. -/
inductive Written : List Char → ManaMark → Prop
  | letter {c : Char} {m : ManaMark} (h : m.letter? = some c.toUpper) : Written [c] m
  | number {cs : List Char} (hne : cs ≠ []) (hdigits : ∀ c ∈ cs, c.isDigit = true)
    (hvalue : Text.digitsValue cs < UInt32.size) : Written cs (.number (Text.digitsValue cs))

variable {cs rest : List Char} {m : ManaMark} {c : Char}

theorem ofLetter?_eq_some_iff : ofLetter? c = some m ↔ m.letter? = some c.toUpper := by
  unfold ofLetter?
  constructor
  · intro h
    split at h <;> cases h <;> simp [letter?, Color.letter, *]
  · intro h
    cases m with
    | number n => cases h
    | color color => cases color <;> rw [← Option.some.inj h] <;> rfl
    | colorless | chosen | snow | phyrexian =>
      rw [← Option.some.inj h]
      rfl

theorem isDigit_of_letter? (h : m.letter? = some c.toUpper) : c.isDigit = false := by
  rw [← Text.isDigit_toUpper]
  cases m with
  | number n => cases h
  | color color => cases color <;> rw [← Option.some.inj h] <;> rfl
  | colorless | chosen | snow | phyrexian =>
    rw [← Option.some.inj h]
    rfl

theorem written_iff : Written cs m ↔ Spells cs m := by
  rw [spells_iff]
  constructor
  · intro h
    cases h with
    | letter h => exact .inl ⟨_, isDigit_of_letter? h, ofLetter?_eq_some_iff.2 h, rfl⟩
    | number hne hdigits hvalue => exact .inr ⟨hne, hdigits, hvalue, rfl⟩
  · rintro (⟨c, -, hm, rfl⟩ | ⟨hne, hdigits, hvalue, rfl⟩)
    · exact .letter (ofLetter?_eq_some_iff.1 hm)
    · exact .number hne hdigits hvalue

/-- A number is read up to the first character that is no digit. -/
theorem head?_of_scan {n : Nat} (h : scan cs = some (number n, rest)) :
    ∀ c ∈ rest.head?, c.isDigit = false := by
  cases cs with
  | nil => cases h
  | cons d cs =>
    rw [scan] at h
    split at h
    · obtain ⟨-, heq⟩ := Option.ite_none_right_eq_some.1 h
      cases heq
      intro c hc
      have hhead := List.head?_dropWhile_not Char.isDigit cs
      rwa [hc] at hhead
    · obtain ⟨m, hm, heq⟩ := Option.map_eq_some_iff.1 h
      cases heq
      cases ofLetter?_eq_some_iff.1 hm

theorem scan_number {n : Nat} (h : Written cs (number n)) (hrest : ∀ c ∈ rest.head?, c.isDigit = false) :
    scan (cs ++ rest) = some (number n, rest) := by
  cases rest with
  | nil => rw [List.append_nil]; exact written_iff.1 h
  | cons c rest => exact (written_iff.1 h).scan_append (hrest c rfl) rest

theorem scan_letter (h : m.letter? = some c.toUpper) (rest : List Char) :
    scan (c :: rest) = some (m, rest) := by
  rw [scan, if_neg (Bool.eq_false_iff.1 (isDigit_of_letter? h)), ofLetter?_eq_some_iff.2 h]
  rfl

end ManaMark

namespace ManaUnit

/-- The sets of alternatives that make up a group: a number, two with one colour, X, S, C, C with one
colour, one or two colours, and P with one or two colours. -/
inductive Together : Finset ManaMark → Prop
  | number (n : Nat) : Together {.number n}
  | twoOr (c : Color) : Together {.number 2, .color c}
  | chosen : Together {.chosen}
  | snow : Together {.snow}
  | colorless : Together {.colorless}
  | colorlessOr (c : Color) : Together {.colorless, .color c}
  | color (c : Color) : Together {.color c}
  | colors {a b : Color} (h : a ≠ b) : Together {.color a, .color b}
  | phyrexian (c : Color) : Together {.phyrexian, .color c}
  | phyrexianColors {a b : Color} (h : a ≠ b) : Together {.phyrexian, .color a, .color b}

variable {ms ms' : List ManaMark} {unit unit' : ManaUnit}

theorem perm_others_append_colors (ms : List ManaMark) :
    ms.Perm (ms.filter (·.color?.isNone) ++ (ms.filterMap ManaMark.color?).map .color) := by
  induction ms with
  | nil => exact .nil
  | cons m ms ih =>
    cases m with
    | color c => exact (ih.cons _).trans List.perm_middle.symm
    | number | colorless | chosen | snow | phyrexian => exact ih.cons _

private theorem perm_ordered (a b : Color) :
    [ManaMark.color a, .color b].Perm [.color (a.ordered b).1, .color (a.ordered b).2] := by
  rw [Color.ordered]
  split
  · exact .refl _
  · exact .swap ..

theorem perm_phyrexian_last (a b : Color) : [ManaMark.phyrexian, .color a, .color b].Perm
    [.color a, .color b, .phyrexian] :=
  (List.perm_append_singleton ManaMark.phyrexian [.color a, .color b]).symm

theorem exists_perm_marks (h : ofMarks? ms = some unit) : ∃ n, ms.Perm (unit.symbol.marks n) := by
  have hperm := perm_others_append_colors ms
  unfold ofMarks? at h
  split at h
  case h_2 a b hothers hcolors =>
    cases h
    rw [hothers, hcolors] at hperm
    exact ⟨0, hperm.trans (perm_ordered a b)⟩
  case h_3 n hothers hcolors =>
    cases h
    rw [hothers, hcolors] at hperm
    exact ⟨n, hperm⟩
  case h_4 n c hothers hcolors =>
    obtain ⟨rfl, heq⟩ := Option.ite_none_right_eq_some.1 h
    cases heq
    rw [hothers, hcolors] at hperm
    exact ⟨0, hperm⟩
  case h_9 c hothers hcolors =>
    cases h
    rw [hothers, hcolors] at hperm
    exact ⟨0, hperm.trans (.swap ..)⟩
  case h_10 a b hothers hcolors =>
    cases h
    rw [hothers, hcolors] at hperm
    exact ⟨0, (hperm.trans (perm_phyrexian_last a b)).trans ((perm_ordered a b).append_right _)⟩
  case h_11 => cases h
  all_goals
    next hothers hcolors =>
      cases h
      rw [hothers, hcolors] at hperm
      exact ⟨0, hperm⟩

private theorem together_marks {s : ManaSymbol} (h : s.Proper) (n : Nat) :
    Together (s.marks n).toFinset := by
  have hordered {a b : Color} (h : a ≠ b) : (a.ordered b).1 ≠ (a.ordered b).2 := by
    rw [Color.ordered]
    split
    · exact h
    · exact h.symm
  cases s with
  | generic => exact .number n
  | chosen => exact .chosen
  | snow => exact .snow
  | colorless => exact .colorless
  | colored c => exact .color c
  | twoOr c => exact .twoOr c
  | colorlessOr c => exact .colorlessOr c
  | hybrid a b => simpa [ManaSymbol.marks] using Together.colors (hordered h)
  | phyrexian c =>
    rw [ManaSymbol.marks, List.toFinset_eq_of_perm _ _ (.swap ..)]
    exact .phyrexian c
  | hybridPhyrexian a b =>
    rw [ManaSymbol.marks, ← List.toFinset_eq_of_perm _ _ (perm_phyrexian_last _ _)]
    simpa using Together.phyrexianColors (hordered h)

theorem nodup_of_distinct (h : distinct ms = true) : ms.Nodup := by
  apply (distinct_iff.1 h).imp
  rintro m _ hclash rfl
  cases m <;> simp [ManaMark.clashes] at hclash

theorem Together.exists_unit {set : Finset ManaMark} (h : Together set) :
    ∃ ms unit, ms.Nodup ∧ ms.toFinset = set ∧ distinct ms = true ∧ ofMarks? ms = some unit := by
  cases h with
  | number n => exact ⟨[.number n], _, by simp, rfl, rfl, rfl⟩
  | twoOr c => exact ⟨[.number 2, .color c], _, by simp, rfl, rfl, rfl⟩
  | chosen => exact ⟨[.chosen], _, by simp, rfl, rfl, rfl⟩
  | snow => exact ⟨[.snow], _, by simp, rfl, rfl, rfl⟩
  | colorless => exact ⟨[.colorless], _, by simp, rfl, rfl, rfl⟩
  | colorlessOr c => exact ⟨[.colorless, .color c], _, by simp, rfl, rfl, rfl⟩
  | color c => exact ⟨[.color c], _, by simp, rfl, rfl, rfl⟩
  | @colors a b hne =>
    have hdistinct : distinct [.color a, .color b] = true := by simp [distinct, ManaMark.clashes, hne]
    exact ⟨_, _, nodup_of_distinct hdistinct, by simp, hdistinct, rfl⟩
  | phyrexian c => exact ⟨[.phyrexian, .color c], _, by simp, rfl, rfl, rfl⟩
  | @phyrexianColors a b hne =>
    have hdistinct : distinct [.phyrexian, .color a, .color b] = true := by
      simp [distinct, ManaMark.clashes, hne]
    exact ⟨_, _, nodup_of_distinct hdistinct, by simp, hdistinct, rfl⟩

/-- Marks stand for a symbol if they are different and their set makes up a group. -/
theorem exists_ofMarks?_iff : (distinct ms = true ∧ ∃ unit, ofMarks? ms = some unit) ↔
    ms.Nodup ∧ Together ms.toFinset := by
  constructor
  · rintro ⟨hdistinct, unit, hunit⟩
    obtain ⟨n, hperm⟩ := exists_perm_marks hunit
    refine ⟨nodup_of_distinct hdistinct, ?_⟩
    rw [List.toFinset_eq_of_perm _ _ hperm]
    exact together_marks (ManaSymbol.proper_of_ofMarks? hdistinct hunit) n
  · rintro ⟨hnodup, htogether⟩
    obtain ⟨ms', unit, hnodup', hset, hdistinct, hunit⟩ := htogether.exists_unit
    have hperm : ms'.Perm ms := List.perm_of_nodup_nodup_toFinset_eq hnodup' hnodup hset
    obtain ⟨unit', hunit', -⟩ := exists_ofMarks?_of_perm hdistinct hperm hunit
    exact ⟨distinct_of_perm hdistinct hperm, unit', hunit'⟩

/-- But for the amount of generic mana, the key of a symbol tells its marks. -/
theorem marks_eq_of_key_eq {s s' : ManaSymbol} (hs : s ≠ .generic) (hs' : s' ≠ .generic)
    (h : s.key = s'.key) (n n' : Nat) : s.marks n = s'.marks n' := by
  have hamount {s : ManaSymbol} (hs : s ≠ .generic) (n : Nat) :
      s.marks n = s.marks (0 : UInt32).toNat := by
    cases s <;> first | rfl | exact absurd rfl hs
  have hread (s : ManaSymbol) : scanMarks 2 (groupChars (s.marks (0 : UInt32).toNat) ++ []) =
      some (s.marks (0 : UInt32).toNat, []) := by
    obtain ⟨m, ms, hmarks, hlength⟩ :
        ∃ m ms, s.marks (0 : UInt32).toNat = m :: ms ∧ ms.length ≤ 2 := by
      cases s <;> exact ⟨_, _, rfl, by simp⟩
    have hrange : ∀ m' ∈ m :: ms, m'.InRange := fun m' hm' =>
      ManaSymbol.inRange_of_mem_marks (hmarks ▸ hm')
    rw [hmarks]
    exact scanMarks_groupChars hlength hrange []
  have hkey : s.keyChars = s'.keyChars := String.ofList_injective h
  have hwritten : groupChars (s.marks (0 : UInt32).toNat) =
      groupChars (s'.marks (0 : UInt32).toNat) := by
    rw [ManaSymbol.groupChars_marks hs, ManaSymbol.groupChars_marks hs', hkey]
  rw [hamount hs, hamount hs']
  have hsame := (hread s).symm.trans (hwritten ▸ hread s')
  exact (Prod.mk.inj (Option.some.inj hsame)).1

/-- Two groups have the same key if they have the same set of alternatives or are both single numbers,
and only then. -/
theorem key_eq_iff (hdistinct : distinct ms = true) (hdistinct' : distinct ms' = true)
    (h : ofMarks? ms = some unit) (h' : ofMarks? ms' = some unit') :
    unit.symbol.key = unit'.symbol.key ↔
      ms.toFinset = ms'.toFinset ∨ ∃ n n', ms = [.number n] ∧ ms' = [.number n'] := by
  obtain ⟨n, hmarks⟩ := exists_perm_marks h
  obtain ⟨n', hmarks'⟩ := exists_perm_marks h'
  constructor
  · intro hkey
    by_cases hgeneric : unit.symbol = .generic
    · have hgeneric' : unit'.symbol = .generic :=
        ManaSymbol.key_eq_generic (hkey.symm.trans (congrArg _ hgeneric))
      rw [hgeneric] at hmarks
      rw [hgeneric'] at hmarks'
      exact .inr ⟨n, n', hmarks.eq_singleton, hmarks'.eq_singleton⟩
    · have hgeneric' : unit'.symbol ≠ .generic := fun hgeneric' =>
        hgeneric (ManaSymbol.key_eq_generic (hkey.trans (congrArg _ hgeneric')))
      rw [marks_eq_of_key_eq hgeneric hgeneric' hkey n n'] at hmarks
      exact .inl (List.toFinset_eq_of_perm _ _ (hmarks.trans hmarks'.symm))
  · rintro (hset | ⟨n, n', rfl, rfl⟩)
    · have hperm : ms.Perm ms' := List.perm_of_nodup_nodup_toFinset_eq (nodup_of_distinct hdistinct)
        (nodup_of_distinct hdistinct') hset
      obtain ⟨unit'', hunit'', hentry⟩ := exists_ofMarks?_of_perm hdistinct hperm h
      obtain rfl := Option.some.inj (h'.symm.trans hunit'')
      exact (congrArg Prod.fst hentry).symm
    · cases h
      cases h'
      rfl

def symbolLetters : List Char := ['W', 'U', 'B', 'R', 'G', 'C', 'X', 'S']

/-- Some characters are a symbol, where the rest follows them: a letter in either case, all digits of a
number that fits 32 bits, or a group. -/
inductive Symbol : List Char → List Char → Prop
  | letter {c : Char} (rest : List Char) (h : c.toUpper ∈ symbolLetters) : Symbol [c] rest
  | number {cs rest : List Char} (hne : cs ≠ []) (hdigits : ∀ c ∈ cs, c.isDigit = true)
    (hvalue : Text.digitsValue cs < UInt32.size) (hrest : ∀ c ∈ rest.head?, c.isDigit = false) :
    Symbol cs rest
  | group {as : List (List Char)} {ms : List ManaMark} (rest : List Char)
    (hlength : 1 ≤ as.length ∧ as.length ≤ 3) (hmarks : List.Forall₂ ManaMark.Written as ms)
    (hdifferent : ms.Nodup) (htogether : Together ms.toFinset) :
    Symbol ('\x7b' :: closed as) rest

/-- Some characters are symbols that stand one after the other, where the rest follows them. -/
inductive Symbols : List Char → List Char → Prop
  | nil (rest : List Char) : Symbols [] rest
  | cons {cs ds rest : List Char} (h : Symbol cs (ds ++ rest)) (hs : Symbols ds rest) :
    Symbols (cs ++ ds) rest

variable {cs ds rest : List Char} {as : List (List Char)} {c : Char}

theorem forall₂_written_iff :
    List.Forall₂ ManaMark.Written as ms ↔ List.Forall₂ ManaMark.Spells as ms := by
  have hsame : ManaMark.Written = ManaMark.Spells :=
    funext fun _ => funext fun _ => propext ManaMark.written_iff
  rw [hsame]

theorem mem_symbolLetters_iff {x : Char} :
    x ∈ symbolLetters ↔ ∃ m : ManaMark, m.letter? = some x ∧ m ≠ .phyrexian := by
  constructor
  · intro h
    simp only [symbolLetters, List.mem_cons, List.not_mem_nil, or_false] at h
    rcases h with rfl | rfl | rfl | rfl | rfl | rfl | rfl | rfl
    · exact ⟨.color .white, rfl, nofun⟩
    · exact ⟨.color .blue, rfl, nofun⟩
    · exact ⟨.color .black, rfl, nofun⟩
    · exact ⟨.color .red, rfl, nofun⟩
    · exact ⟨.color .green, rfl, nofun⟩
    · exact ⟨.colorless, rfl, nofun⟩
    · exact ⟨.chosen, rfl, nofun⟩
    · exact ⟨.snow, rfl, nofun⟩
  · rintro ⟨m, hx, hm⟩
    cases m with
    | number n => cases hx
    | color color =>
      obtain rfl := Option.some.inj hx
      cases color <;> decide
    | colorless | chosen | snow =>
      obtain rfl := Option.some.inj hx
      decide
    | phyrexian => exact absurd rfl hm

/-- A mark is a symbol by itself unless it is P. -/
theorem exists_ofMarks?_singleton {m : ManaMark} :
    (∃ unit, ofMarks? [m] = some unit) ↔ m ≠ .phyrexian := by
  cases m with
  | phyrexian => exact iff_of_false (fun ⟨_, h⟩ => nomatch h) (not_not_intro rfl)
  | number | color | colorless | chosen | snow => exact iff_of_true ⟨_, rfl⟩ nofun

theorem scan_of_ne_brace (h : ∀ ds, cs ≠ '\x7b' :: ds) :
    scan cs = (ManaMark.scan cs).bind fun r => (ofMarks? [r.1]).map (·, r.2) := by
  rw [scan.eq_def]
  split
  · next ds => exact absurd rfl (h ds)
  · cases ManaMark.scan cs <;> rfl

/-- A single mark that is a symbol is read as one. -/
theorem exists_scan_of_markScan {m : ManaMark} (h : ManaMark.scan cs = some (m, rest))
    (hm : m ≠ .phyrexian) : ∃ unit, scan cs = some (unit, rest) := by
  obtain ⟨unit, hunit⟩ := exists_ofMarks?_singleton.2 hm
  have hbrace : ∀ ds, cs ≠ '\x7b' :: ds := by
    rintro ds rfl
    cases h
  exact ⟨unit, by rw [scan_of_ne_brace hbrace, h, Option.bind_some, hunit, Option.map_some]⟩

theorem symbol_iff : Symbol cs rest ↔ ∃ unit, scan (cs ++ rest) = some (unit, rest) := by
  constructor
  · intro h
    cases h with
    | letter rest h =>
      obtain ⟨m, hletter, hm⟩ := mem_symbolLetters_iff.1 h
      exact exists_scan_of_markScan (ManaMark.scan_letter hletter rest) hm
    | number hne hdigits hvalue hrest =>
      exact exists_scan_of_markScan (ManaMark.scan_number (.number hne hdigits hvalue) hrest) nofun
    | @group as ms rest hlength hmarks hdifferent htogether =>
      obtain ⟨hdistinct, unit, hunit⟩ := exists_ofMarks?_iff.2 ⟨hdifferent, htogether⟩
      refine ⟨unit, scan_brace_iff.2 ⟨as, ⟨?_, hlength.2, ms, forall₂_written_iff.1 hmarks, hdistinct,
        hunit⟩, rfl⟩⟩
      exact List.ne_nil_of_length_pos hlength.1
  · rintro ⟨unit, h⟩
    by_cases hbrace : ∃ ds, cs ++ rest = '\x7b' :: ds
    · obtain ⟨ds, hds⟩ := hbrace
      rw [hds] at h
      obtain ⟨as, ⟨hne, hthree, ms, hmarks, hdistinct, hunit⟩, rfl⟩ := scan_brace_iff.1 h
      obtain ⟨hdifferent, htogether⟩ := exists_ofMarks?_iff.1 ⟨hdistinct, unit, hunit⟩
      obtain rfl : cs = '\x7b' :: closed as := List.append_cancel_right hds
      exact .group rest ⟨List.length_pos_of_ne_nil hne, hthree⟩ (forall₂_written_iff.2 hmarks)
        hdifferent htogether
    · rw [scan_of_ne_brace (not_exists.1 hbrace)] at h
      obtain ⟨⟨m, rest'⟩, hscan, h⟩ := Option.bind_eq_some_iff.1 h
      obtain ⟨unit', hunit, heq⟩ := Option.map_eq_some_iff.1 h
      cases heq
      obtain ⟨ds, hds, hsplit⟩ := ManaMark.exists_spells_of_scan hscan
      obtain rfl : cs = ds := List.append_cancel_right hsplit
      cases ManaMark.written_iff.2 hds with
      | letter hletter =>
        have hm : m ≠ .phyrexian := exists_ofMarks?_singleton.1 ⟨unit, hunit⟩
        exact .letter _ (mem_symbolLetters_iff.2 ⟨m, hletter, hm⟩)
      | number hne hdigits hvalue =>
        exact .number hne hdigits hvalue (ManaMark.head?_of_scan hscan)

private theorem Symbol.utf8Size (h : Symbol cs rest) : ∀ c ∈ cs, c.utf8Size = 1 := by
  cases h with
  | letter rest h =>
    obtain ⟨m, hletter, -⟩ := mem_symbolLetters_iff.1 h
    exact (ManaMark.written_iff.1 (.letter hletter)).utf8Size
  | number hne hdigits hvalue => exact (ManaMark.written_iff.1 (.number hne hdigits hvalue)).utf8Size
  | @group as ms rest hlength hmarks =>
    have hinner : ∀ a ∈ as, ∀ c ∈ a, c.utf8Size = 1 :=
      ((List.forall₂_and_left as ms).1
        ((forall₂_written_iff.1 hmarks).imp fun _ _ ha => ⟨ha.utf8Size, ha⟩)).1
    exact List.forall_mem_cons.2 ⟨rfl, forall_mem_closed (p := (·.utf8Size = 1)) rfl rfl hinner⟩

theorem Symbols.utf8Size (h : Symbols cs rest) : ∀ c ∈ cs, c.utf8Size = 1 := by
  induction h with
  | nil => exact List.forall_mem_nil _
  | cons hsymbol _ ih => exact List.forall_mem_append.2 ⟨hsymbol.utf8Size, ih⟩

/-- What is read after some symbols is read as well when they come first. -/
theorem Symbols.scanAll_append (h : Symbols cs rest) : (scanAll (cs ++ rest)).2 = (scanAll rest).2 := by
  induction h with
  | nil rest => rfl
  | cons hsymbol _ ih =>
    obtain ⟨unit, hscan⟩ := symbol_iff.1 hsymbol
    rw [List.append_assoc, scanAll_of_scan hscan, ih]

theorem exists_symbols (cs : List Char) :
    ∃ ds, cs = ds ++ (scanAll cs).2 ∧ Symbols ds (scanAll cs).2 ∧ scan (scanAll cs).2 = none := by
  fun_induction scanAll cs with
  | case1 cs h => exact ⟨[], rfl, .nil cs, h⟩
  | case2 cs unit rest h _ tail ih =>
    obtain ⟨ds, hds, hsymbols, hend⟩ := ih
    obtain ⟨c, before, hbefore⟩ := scan_suffix h
    have hsplit : cs = (before ++ [c]) ++ rest := by rw [← hbefore, List.append_assoc]; rfl
    have hsymbol : Symbol (before ++ [c]) rest := symbol_iff.2 ⟨unit, hsplit ▸ h⟩
    refine ⟨(before ++ [c]) ++ ds, ?_, .cons (hds ▸ hsymbol) hsymbols, hend⟩
    rw [List.append_assoc, ← hds, hsplit]

/-- Any other sequence of symbols is the beginning of the one that is read. -/
theorem Symbols.prefix_of_eq (h : Symbols ds rest) {consumed : List Char}
    (heq : ds ++ rest = consumed ++ (scanAll (ds ++ rest)).2) : ds <+: consumed := by
  obtain ⟨more, hmore⟩ := scanAll_suffix rest
  rw [h.scanAll_append, ← hmore, ← List.append_assoc, hmore] at heq
  exact ⟨more, List.append_cancel_right heq⟩

end ManaUnit

namespace ManaCost

open ManaUnit

theorem utf8ByteSize_ofList_cons (c : Char) (cs : List Char) :
    (String.ofList (c :: cs)).utf8ByteSize = c.utf8Size + (String.ofList cs).utf8ByteSize := by
  rw [String.ofList_cons, String.utf8ByteSize_append, String.utf8ByteSize_singleton]

/-- A text can be cut at a byte position if some characters take up so many bytes. -/
theorem fromByte?_eq_some_iff {n : Nat} {cs ds : List Char} : fromByte? n cs = some ds ↔
    ∃ before, cs = before ++ ds ∧ (String.ofList before).utf8ByteSize = n := by
  constructor
  · intro h
    fun_induction fromByte? n cs with
    | case1 cs =>
      cases h
      exact ⟨[], rfl, rfl⟩
    | case2 => cases h
    | case3 n c cs hle ih =>
      obtain ⟨before, rfl, hsize⟩ := ih h
      refine ⟨c :: before, rfl, ?_⟩
      rw [utf8ByteSize_ofList_cons, hsize]
      omega
    | case4 => cases h
  · rintro ⟨before, rfl, rfl⟩
    induction before with
    | nil => cases ds <;> rfl
    | cons c before ih =>
      have hpos : 0 < c.utf8Size := c.utf8Size_pos
      obtain ⟨n, hn⟩ : ∃ n, c.utf8Size + (String.ofList before).utf8ByteSize = n + 1 :=
        ⟨_, (Nat.succ_pred_eq_of_pos (by omega)).symm⟩
      rw [utf8ByteSize_ofList_cons, hn, List.cons_append, fromByte?, if_pos (by omega), ← ih]
      congr 1
      omega

/-- Where no character ends there is nothing to read. -/
theorem readAt_of_no_position {text : String} {start : Nat}
    (h : ∀ before after : String, text = before ++ after → before.utf8ByteSize ≠ start) :
    readAt text start = (∅, 0) := by
  rw [readAt]
  cases hfrom : fromByte? start text.toList with
  | none => rfl
  | some ds =>
    obtain ⟨before, htext, hsize⟩ := fromByte?_eq_some_iff.1 hfrom
    refine absurd hsize (h (String.ofList before) (String.ofList ds) ?_)
    rw [← String.ofList_append, ← htext, String.ofList_toList]

/-- Reading from behind a part of a text takes the longest sequence of symbols there. -/
theorem readAt_append (before text : String) : ∃ consumed rest : String, text = consumed ++ rest ∧
    (readAt (before ++ text) before.utf8ByteSize).2 = consumed.utf8ByteSize ∧
    Symbols consumed.toList rest.toList ∧
    (∀ cs ds, rest.toList = cs ++ ds → ¬ Symbol cs ds) ∧
    ∀ cs ds, text.toList = cs ++ ds → Symbols cs ds → cs <+: consumed.toList := by
  obtain ⟨consumed, htext, hsymbols, hend⟩ := exists_symbols text.toList
  have hfrom : fromByte? before.utf8ByteSize (before ++ text).toList = some text.toList :=
    fromByte?_eq_some_iff.2 ⟨before.toList, String.toList_append, by rw [String.ofList_toList]⟩
  have hread : (readAt (before ++ text) before.utf8ByteSize).2 = consumed.length := by
    have hlength := congrArg List.length htext
    rw [List.length_append] at hlength
    rw [readAt, hfrom]
    exact Nat.sub_eq_of_eq_add hlength
  refine ⟨String.ofList consumed, String.ofList (scanAll text.toList).2, ?_, ?_, ?_, ?_, ?_⟩
  · rw [← String.ofList_append, ← htext, String.ofList_toList]
  · rw [hread, utf8ByteSize_ofList hsymbols.utf8Size]
  · rwa [String.toList_ofList, String.toList_ofList]
  · intro cs ds hrest hsymbol
    obtain ⟨unit, hscan⟩ := symbol_iff.1 hsymbol
    rw [← hrest, String.toList_ofList, hend] at hscan
    cases hscan
  · intro cs ds hcs hsymbols
    rw [String.toList_ofList]
    exact hsymbols.prefix_of_eq (hcs ▸ htext)

/-- The alternatives of a group that is read as a symbol stand for it. -/
theorem marks_of_scan {as : List (List Char)} {ms : List ManaMark} {unit : ManaUnit}
    {rest : List Char} (h : ManaUnit.scan ('\x7b' :: closed as ++ rest) = some (unit, rest))
    (hmarks : List.Forall₂ ManaMark.Written as ms) :
    distinct ms = true ∧ ofMarks? ms = some unit := by
  obtain ⟨as', has', hsame⟩ := scan_brace_iff.1 h
  have hclosed : closed as = closed as' := List.append_cancel_right hsame
  have hspells := forall₂_written_iff.1 hmarks
  have hstroke : ∀ a ∈ as, '/' ∉ a :=
    ((List.forall₂_and_left as ms).1 (hspells.imp fun _ _ ha => ⟨ha.stroke_not_mem, ha⟩)).1
  have halone : ManaUnit.scan ('\x7b' :: closed as) = some (unit, []) :=
    scan_brace_iff.2 ⟨as', has', by rw [hclosed, List.append_nil]⟩
  obtain ⟨-, -, ms', hms', hdistinct, hunit⟩ := stands_of_scan halone hstroke
  have hunique : Relator.RightUnique ManaMark.Spells := fun cs m m' h h' =>
    (Prod.mk.inj (Option.some.inj (h.symm.trans h'))).1
  obtain rfl : ms = ms' := List.right_unique_forall₂' hunique hspells hms'
  exact ⟨hdistinct, hunit⟩

/-- Behind any part of a text, reading takes some symbols of the grammar one after the other and leaves
a rest that begins with none; all other symbols there are the beginning of these. Where no character
ends, and beyond the text, it takes nothing. Two groups get the same key if they have the same set of
alternatives or are both single numbers, and only then. -/
theorem readAt_accepts_grammar :
    (∀ before text : String, ∃ consumed rest : String, text = consumed ++ rest ∧
      (readAt (before ++ text) before.utf8ByteSize).2 = consumed.utf8ByteSize ∧
      Symbols consumed.toList rest.toList ∧
      (∀ cs ds, rest.toList = cs ++ ds → ¬ Symbol cs ds) ∧
      ∀ cs ds, text.toList = cs ++ ds → Symbols cs ds → cs <+: consumed.toList) ∧
    (∀ (text : String) (start : Nat),
      (∀ before after : String, text = before ++ after → before.utf8ByteSize ≠ start) →
      readAt text start = (∅, 0)) ∧
    (∀ (text : String) (start : Nat), text.utf8ByteSize < start → readAt text start = (∅, 0)) ∧
    ∀ (as as' : List (List Char)) (ms ms' : List ManaMark) (unit unit' : ManaUnit)
      (rest rest' : List Char), List.Forall₂ ManaMark.Written as ms →
      List.Forall₂ ManaMark.Written as' ms' →
      ManaUnit.scan ('\x7b' :: closed as ++ rest) = some (unit, rest) →
      ManaUnit.scan ('\x7b' :: closed as' ++ rest') = some (unit', rest') →
      (unit.symbol.key = unit'.symbol.key ↔
        ms.toFinset = ms'.toFinset ∨ ∃ n n', ms = [.number n] ∧ ms' = [.number n']) := by
  refine ⟨readAt_append, fun text start => readAt_of_no_position, fun text start hstart => ?_, ?_⟩
  · apply readAt_of_no_position
    rintro before after rfl
    rw [String.utf8ByteSize_append] at hstart
    omega
  · intro as as' ms ms' unit unit' rest rest' hmarks hmarks' hscan hscan'
    obtain ⟨hdistinct, hunit⟩ := marks_of_scan hscan hmarks
    obtain ⟨hdistinct', hunit'⟩ := marks_of_scan hscan' hmarks'
    exact key_eq_iff hdistinct hdistinct' hunit hunit'

/-- A letter, a group and a number are read behind a letter of two bytes, and a group that names one
colour twice is not. There is nothing to read inside the letter of two bytes and beyond the text. -/
theorem readAt_accepts_grammar_twoOrWhite :
    let text := "x\x7b02/w\x7d10\x7bw/W\x7d"
    (∃ consumed rest : String, text = consumed ++ rest ∧
      (readAt ("é" ++ text) 2).2 = consumed.utf8ByteSize ∧ ['x'] <+: consumed.toList) ∧
    readAt ("é" ++ text) 1 = (∅, 0) ∧ readAt text 20 = (∅, 0) ∧
    ∃ unit unit', ManaUnit.scan "\x7b02/w\x7d".toList = some (unit, []) ∧
      ManaUnit.scan "\x7bW/2\x7d".toList = some (unit', []) ∧ unit.symbol.key = unit'.symbol.key := by
  intro text
  obtain ⟨hreads, hinside, hbeyond, hkeys⟩ := readAt_accepts_grammar
  refine ⟨?_, ?_, hbeyond text 20 (by decide), ?_⟩
  · obtain ⟨consumed, rest, htext, hlength, -, -, hlongest⟩ := hreads "é" text
    have hletter : Symbols (['x'] ++ []) "\x7b02/w\x7d10\x7bw/W\x7d".toList :=
      .cons (.letter _ (by decide)) (.nil _)
    exact ⟨consumed, rest, htext, hlength, hlongest ['x'] _ (by decide) hletter⟩
  · apply hinside
    intro before after htext hsize
    have hfrom : fromByte? 1 ("é" ++ text).toList = some after.toList :=
      fromByte?_eq_some_iff.2 ⟨before.toList, by rw [htext, String.toList_append],
        by rw [String.ofList_toList, hsize]⟩
    have hnone : fromByte? 1 ("é" ++ text).toList = none := by decide +kernel
    cases hnone.symm.trans hfrom
  · have hmarks : List.Forall₂ ManaMark.Written [['0', '2'], ['w']] [.number 2, .color .white] :=
      .cons (.number (by decide) (by simp) (by decide +kernel)) (.cons (.letter rfl) .nil)
    have hmarks' : List.Forall₂ ManaMark.Written [['W'], ['2']] [.color .white, .number 2] :=
      .cons (.letter rfl) (.cons (.number (by decide) (by simp) (by decide +kernel)) .nil)
    have hscan : ManaUnit.scan "\x7b02/w\x7d".toList = some (⟨.twoOr .white, 1⟩, []) := by decide +kernel
    have hscan' : ManaUnit.scan "\x7bW/2\x7d".toList = some (⟨.twoOr .white, 1⟩, []) := by decide +kernel
    exact ⟨_, _, hscan, hscan', (hkeys _ _ _ _ _ _ [] [] hmarks hmarks' hscan hscan').2
      (.inl (by decide))⟩

end ManaCost

end CardSearch
