import CardSearch.Query.Term

/-!
# What is left of a text after a term

The rest that a reader returns is an end of the text that it was given. A keyword and its
operator take up at least one character, and so does a term that starts on a character of a word;
thus the reading of a text comes to an end.
-/

namespace CardSearch

namespace Term

theorem word_suffix (cs : List Char) : (word cs).2 <:+ cs := List.dropWhile_suffix _

theorem word_length_lt {c : Char} {cs : List Char} (h : endsWord c = false) :
    (word (c :: cs)).2.length < (c :: cs).length := by
  have : (cs.dropWhile (!endsWord ·)).length ≤ cs.length := (List.dropWhile_suffix _).length_le
  simp [word, h]; omega

theorem untilQuote_suffix {quote : Char} {cs inside rest : List Char}
    (h : untilQuote quote cs = some (inside, rest)) : rest <:+ cs := by
  induction cs generalizing inside with
  | nil => simp [untilQuote] at h
  | cons c cs ih =>
    rw [untilQuote] at h
    split at h
    · simp only [Option.some.injEq, Prod.mk.injEq] at h
      exact h.2 ▸ List.suffix_cons _ _
    · match hu : untilQuote quote cs with
      | none => simp [hu] at h
      | some (i, r) =>
        simp only [hu, Option.map_some, Option.some.injEq, Prod.mk.injEq] at h
        obtain ⟨-, rfl⟩ := h
        exact (ih hu).trans (List.suffix_cons _ _)

theorem quotation_length_lt {cs inside rest : List Char}
    (h : quotation cs = some (inside, rest)) : rest.length < cs.length := by
  cases cs with
  | nil => simp [quotation] at h
  | cons c cs =>
    rw [quotation] at h
    split at h
    · have := (untilQuote_suffix h).length_le
      simp; omega
    · simp at h

theorem quotation_suffix {cs inside rest : List Char}
    (h : quotation cs = some (inside, rest)) : rest <:+ cs := by
  cases cs with
  | nil => simp [quotation] at h
  | cons c cs =>
    rw [quotation] at h
    split at h
    · exact (untilQuote_suffix h).trans (List.suffix_cons _ _)
    · simp at h

theorem phrase_suffix (cs : List Char) : (phrase cs).2 <:+ cs := by
  unfold phrase
  match h : quotation cs with
  | none => exact word_suffix cs
  | some (inside, rest) => exact quotation_suffix h

theorem keyed?_suffix {cs keyword rest : List Char} {op : Operator}
    (h : keyed? cs = some (keyword, op, rest)) : ∃ c, c :: rest <:+ cs := by
  induction cs generalizing keyword op with
  | nil => simp [keyed?] at h
  | cons c cs ih =>
    rw [keyed?] at h
    split at h
    · simp at h
    · split at h
      next hop =>
        split at h
        · simp at h
        · simp only [Option.some.injEq, Prod.mk.injEq] at h
          obtain ⟨-, -, rfl⟩ := h
          exact Operator.scan?_suffix hop
      next =>
        match hk : keyed? cs with
        | none => simp [hk] at h
        | some (k, o, r) =>
          simp only [hk, Option.map_some, Option.some.injEq, Prod.mk.injEq] at h
          obtain ⟨-, -, rfl⟩ := h
          obtain ⟨d, hd⟩ := ih hk
          exact ⟨d, hd.trans (List.suffix_cons _ _)⟩

theorem digits?_suffix {n m : Nat} {cs rest : List Char} (h : digits? n cs = some (m, rest)) :
    rest <:+ cs := by
  simp only [digits?, Option.ite_none_right_eq_some, Option.some.injEq, Prod.mk.injEq] at h
  exact h.2.2 ▸ List.drop_suffix _ _

theorem datePart?_suffix {m : Nat} {cs rest : List Char} (h : datePart? cs = some (m, rest)) :
    rest <:+ cs := by
  unfold datePart? at h
  split at h
  · exact (digits?_suffix h).trans (List.suffix_cons _ _)
  · simp at h

theorem dateDigits?_suffix {y : Nat} {m d : Option Nat} {cs rest : List Char}
    (h : dateDigits? cs = some (y, m, d, rest)) : rest <:+ cs := by
  unfold dateDigits? at h
  match hy : digits? 4 cs with
  | none => simp [hy] at h
  | some (year, afterYear) =>
    have hs := digits?_suffix hy
    simp only [hy, Option.map_some, Option.some.injEq] at h
    split at h
    next => simp_all
    next hm =>
      have hs := (datePart?_suffix hm).trans hs
      split at h
      next => simp_all
      next hd =>
        have := (datePart?_suffix hd).trans hs
        simp_all

theorem afterWord?_suffix {w cs rest : List Char} (h : afterWord? w cs = some rest) :
    rest <:+ cs := by
  induction w generalizing cs with
  | nil => simp_all [afterWord?]
  | cons l ls ih =>
    cases cs with
    | nil => simp [afterWord?] at h
    | cons c cs =>
      rw [afterWord?] at h
      split at h
      · exact (ih h).trans (List.suffix_cons _ _)
      · simp at h

theorem rarity?_suffix {op : Operator} {cs rest : List Char} {t : Term}
    (h : rarity? op cs = some (t, rest)) : rest <:+ cs := by
  unfold rarity? at h
  split at h
  · simp at h
  next hw =>
    obtain ⟨w, -, hw⟩ := List.exists_of_findSome?_eq_some hw
    split at h
    · simp only [Option.map_eq_some_iff, Prod.mk.injEq] at h
      obtain ⟨_, -, -, rfl⟩ := h
      exact afterWord?_suffix hw
    · simp at h

theorem ofKeyword?_suffix {names : Dict Subset} {op : Operator} {cs rest : List Char}
    {k : Keyword} {t : Term} (h : ofKeyword? names op cs k = some (t, rest)) : rest <:+ cs := by
  have hword := word_suffix cs
  have hphrase := phrase_suffix cs
  cases k <;> simp only [ofKeyword?] at h
  case color | identity =>
    simp only [colors?] at h
    split at h
    · simp_all
    · simp only [Option.map_eq_some_iff, Prod.mk.injEq] at h
      obtain ⟨_, -, -, rfl⟩ := h
      exact hword
  case mana =>
    simp only [mana?, Option.ite_none_left_eq_some, Option.some.injEq, Prod.mk.injEq] at h
    obtain ⟨-, -, rfl⟩ := h
    exact ManaUnit.scanAll_suffix cs
  case manaValue =>
    simp only [manaValue?] at h
    split at h
    · simp_all
    · split at h
      · simp_all
      · simp only [Option.map_eq_some_iff, Prod.mk.injEq] at h
        obtain ⟨_, -, -, rfl⟩ := h
        exact hword
  case date =>
    simp only [date?] at h
    split at h
    · simp at h
    next hd =>
      simp only [Option.map_eq_some_iff, Prod.mk.injEq] at h
      obtain ⟨_, -, -, rfl⟩ := h
      exact dateDigits?_suffix hd
  case year =>
    simp only [year?] at h
    split at h
    · simp at h
    · simp only [Option.map_eq_some_iff, Prod.mk.injEq] at h
      obtain ⟨_, -, -, rfl⟩ := h
      exact hword
  case rarity => exact rarity?_suffix h
  case set => simp_all [set?]
  case format => simp_all [format?]
  case reprinted | notReprinted =>
    simp only [reprint?, Option.ite_none_right_eq_some, Option.some.injEq, Prod.mk.injEq] at h
    exact h.2.2 ▸ hword
  case oracle | fullOracle | type => simp_all [part?]
  case subset =>
    simp only [subset?, Option.ite_none_right_eq_some, Option.map_eq_some_iff,
      Prod.mk.injEq] at h
    obtain ⟨-, _, -, -, rfl⟩ := h
    exact hphrase

/-- A keyword and its operator take up at least one character. -/
theorem keywordTerm?_suffix {names : Dict Subset} {cs rest : List Char} {t : Term}
    (h : keywordTerm? names cs = some (t, rest)) : ∃ c, c :: rest <:+ cs := by
  unfold keywordTerm? at h
  split at h
  · simp at h
  next hk =>
    obtain ⟨c, hc⟩ := keyed?_suffix hk
    split at h
    · simp at h
    · have hs := ofKeyword?_suffix h
      obtain ⟨front, rfl⟩ := hs
      rcases List.eq_nil_or_concat front with rfl | ⟨init, last, rfl⟩
      · exact ⟨c, hc⟩
      · exact ⟨last, (List.suffix_append (c :: init) _).trans (by simpa using hc)⟩

theorem name_suffix (cs : List Char) : (name cs).2 <:+ cs := by
  unfold name
  split
  next h => exact quotation_suffix h
  next => exact word_suffix cs

theorem scan_suffix (names : Dict Subset) (cs : List Char) : (scan names cs).2 <:+ cs := by
  unfold scan
  match h : keywordTerm? names cs with
  | none => exact name_suffix cs
  | some (t, rest) =>
    obtain ⟨c, hc⟩ := keywordTerm?_suffix h
    exact (List.suffix_cons _ _).trans hc

/-- A term that starts on a character of a word takes up at least one. -/
theorem scan_length_lt (names : Dict Subset) {c : Char} {cs : List Char} (hc : endsWord c = false) :
    (scan names (c :: cs)).2.length < (c :: cs).length := by
  unfold scan
  match h : keywordTerm? names (c :: cs) with
  | some (t, rest) =>
    obtain ⟨d, hd⟩ := keywordTerm?_suffix h
    have := hd.length_le
    simp only [List.length_cons, Option.getD_some] at this ⊢
    omega
  | none =>
    simp only [Option.getD_none, name]
    split
    next hq => exact quotation_length_lt hq
    next => exact word_length_lt hc

end Term

end CardSearch
