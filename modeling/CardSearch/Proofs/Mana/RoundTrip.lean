import CardSearch.Proofs.Mana.Masks

/-!
# The text of a mana cost is read back

A cost writes each of its symbols as a group in braces: generic mana once with its amount, any other
symbol as often as it is counted. A group is read back whatever follows it, since its closing brace
ends the last mark. So the text of a cost is read to its end, group by group, and counting the
symbols again builds up the counts of the cost one key after the other.

This holds of the costs that count symbols which can be written, none of them zero times except
generic mana, and these are just the costs that some text has.
-/

namespace CardSearch

namespace ManaMark

def chars : ManaMark → List Char
  | number n => Nat.toDigits 10 n
  | color c => [c.letter]
  | colorless => ['C']
  | chosen => ['X']
  | snow => ['S']
  | phyrexian => ['P']

def InRange : ManaMark → Prop
  | number n => n < UInt32.size
  | _ => True

private theorem digitsValue_toDigits (n : Nat) : Text.digitsValue (Nat.toDigits 10 n) = n :=
  Nat.ofDigitChars_ten_toDigits

theorem isDigit_of_mem_toDigits {n : Nat} {c : Char} (h : c ∈ Nat.toDigits 10 n) :
    c.isDigit = true :=
  Nat.isDigit_of_mem_toDigits (by decide) (by decide) h

/-- A mark is read back if no digit follows it. -/
theorem scan_chars {m : ManaMark} (h : m.InRange) {c : Char} (hc : c.isDigit = false)
    (rest : List Char) : scan (m.chars ++ c :: rest) = some (m, c :: rest) := by
  cases m with
  | number n =>
    obtain ⟨d, ds, hdigits⟩ := List.exists_cons_of_ne_nil (Nat.toDigits_ne_nil (n := n) (b := 10))
    have hall : ∀ d' ∈ d :: ds, d'.isDigit = true := fun d' hd' =>
      isDigit_of_mem_toDigits (hdigits ▸ hd')
    obtain ⟨hd, hds⟩ := List.forall_mem_cons.1 hall
    have htake : (ds ++ c :: rest).takeWhile Char.isDigit = ds := by
      rw [List.takeWhile_append_of_pos hds, List.takeWhile_cons_of_neg (by simp [hc]),
        List.append_nil]
    have hdrop : (ds ++ c :: rest).dropWhile Char.isDigit = c :: rest := by
      rw [List.dropWhile_append_of_pos hds, List.dropWhile_cons_of_neg (by simp [hc])]
    -- `c` ends the run of digits, so the number read is all of `n`
    have hvalue : Text.digitsValue (d :: ds) = n := by rw [← hdigits, digitsValue_toDigits]
    have hn : n < UInt32.size := h
    rw [chars, hdigits, List.cons_append, scan, if_pos hd]
    simp only [htake, hdrop, hvalue, if_pos hn]
  | color color => cases color <;> rfl
  | colorless | chosen | snow | phyrexian => rfl

end ManaMark

namespace ManaUnit

def groupChars : List ManaMark → List Char
  | [] => ['\x7d']
  | [m] => m.chars ++ ['\x7d']
  | m :: ms => m.chars ++ '/' :: groupChars ms

theorem scanMarks_groupChars {more : Nat} {m : ManaMark} {ms : List ManaMark}
    (hlength : ms.length ≤ more) (h : ∀ m' ∈ m :: ms, m'.InRange) (rest : List Char) :
    scanMarks more (groupChars (m :: ms) ++ rest) = some (m :: ms, rest) := by
  induction ms generalizing m more with
  | nil =>
    rw [groupChars, List.append_assoc, List.singleton_append, scanMarks,
      ManaMark.scan_chars (h m (by simp)) rfl]
    rfl
  | cons m' ms ih =>
    obtain ⟨hm, hms⟩ := List.forall_mem_cons.1 h
    cases more with
    | zero => cases hlength
    | succ more =>
      have hrest : scanMarks more (groupChars (m' :: ms) ++ rest) = some (m' :: ms, rest) :=
        ih (Nat.le_of_succ_le_succ hlength) hms
      rw [groupChars, List.append_assoc, List.cons_append, scanMarks,
        ManaMark.scan_chars hm rfl]
      · simp only [hrest, Option.map_some]
      · simp

end ManaUnit

namespace ManaSymbol

def marks (n : Nat) : ManaSymbol → List ManaMark
  | generic => [.number n]
  | chosen => [.chosen]
  | snow => [.snow]
  | colorless => [.colorless]
  | colored c => [.color c]
  | twoOr c => [.number 2, .color c]
  | colorlessOr c => [.colorless, .color c]
  | hybrid a b => [.color (a.ordered b).1, .color (a.ordered b).2]
  | phyrexian c => [.color c, .phyrexian]
  | hybridPhyrexian a b => [.color (a.ordered b).1, .color (a.ordered b).2, .phyrexian]

theorem inRange_of_mem_marks {n : UInt32} {s : ManaSymbol} {m : ManaMark}
    (h : m ∈ s.marks n.toNat) : m.InRange := by
  cases s with
  | generic =>
    obtain rfl := List.mem_singleton.1 h
    exact n.toNat_lt
  | twoOr c =>
    rcases List.mem_cons.1 h with rfl | h
    · exact (by decide : 2 < UInt32.size)
    · obtain rfl := List.mem_singleton.1 h
      trivial
  | chosen | snow | colorless | colored _ | colorlessOr _ | hybrid _ _ | phyrexian _
  | hybridPhyrexian _ _ =>
    simp only [marks, List.mem_cons, List.not_mem_nil, or_false] at h
    rcases h with rfl | rfl | rfl <;> trivial

/-- But for an amount of generic mana, what stands in the braces is the key. -/
theorem groupChars_marks {s : ManaSymbol} (h : s ≠ generic) (n : Nat) :
    ManaUnit.groupChars (s.marks n) = s.keyChars ++ ['\x7d'] := by
  cases s with
  | generic => exact absurd rfl h
  | chosen | snow | colorless | colored _ | twoOr _ | colorlessOr _ | hybrid _ _ | phyrexian _
  | hybridPhyrexian _ _ => rfl

private theorem keyChars_eq_generic {s : ManaSymbol} (h : s.keyChars = generic.keyChars) :
    s = generic := by
  cases s with
  | generic => rfl
  | chosen | snow | colorless => cases h
  | colored c => cases c <;> cases h
  | twoOr _ | colorlessOr _ | hybrid _ _ | phyrexian _ | hybridPhyrexian _ _ =>
    cases congrArg List.length h

theorem key_eq_generic {s : ManaSymbol} (h : s.key = generic.key) : s = generic :=
  keyChars_eq_generic (String.ofList_injective h)

/-- The marks stand for a symbol of the same key, which may name its two colours the other way. -/
theorem exists_ofMarks? {s : ManaSymbol} (h : s.Proper) (n : UInt32) :
    ManaUnit.distinct (s.marks n.toNat) = true ∧
      ∃ unit, ManaUnit.ofMarks? (s.marks n.toNat) = some unit ∧ unit.symbol.key = s.key ∧
        unit.amount = if s = generic then n else 1 := by
  cases s with
  | generic => exact ⟨rfl, _, rfl, rfl, UInt32.ofNat_toNat⟩
  | chosen | snow | colorless | colored _ | twoOr _ | colorlessOr _ | phyrexian _ =>
    exact ⟨rfl, _, rfl, rfl, rfl⟩
  | hybrid a b | hybridPhyrexian a b =>
    have hne : a ≠ b := h
    cases a <;> cases b <;> first | exact absurd rfl hne | exact ⟨rfl, _, rfl, rfl, rfl⟩

end ManaSymbol

namespace ManaUnit

def entry (unit : ManaUnit) : String × UInt32 := (unit.symbol.key, unit.amount)

private theorem scan_groupChars {s : ManaSymbol} (h : s.Proper) (n : UInt32) (rest : List Char) :
    ∃ unit, scan ('\x7b' :: groupChars (s.marks n.toNat) ++ rest) = some (unit, rest) ∧
      unit.entry = (s.key, if s = .generic then n else 1) := by
  obtain ⟨hdistinct, unit, hunit, hkey, hamount⟩ := ManaSymbol.exists_ofMarks? h n
  obtain ⟨m, ms, hmarks, hlength⟩ : ∃ m ms, s.marks n.toNat = m :: ms ∧ ms.length ≤ 2 := by
    cases s <;> exact ⟨_, _, rfl, by simp⟩
  have hscan : scanMarks 2 (groupChars (s.marks n.toNat) ++ rest) =
      some (s.marks n.toNat, rest) := by
    have hrange : ∀ m' ∈ m :: ms, m'.InRange := fun m' hm' =>
      ManaSymbol.inRange_of_mem_marks (hmarks ▸ hm')
    rw [hmarks]
    exact scanMarks_groupChars hlength hrange rest
  refine ⟨unit, ?_, Prod.ext hkey hamount⟩
  rw [List.cons_append, scan]
  simp only [hscan, if_pos hdistinct, hunit, Option.map_some]

theorem scanAll_of_scan {cs rest : List Char} {unit : ManaUnit} (h : scan cs = some (unit, rest)) :
    scanAll cs = (unit :: (scanAll rest).1, (scanAll rest).2) := by
  rw [scanAll.eq_def]
  split
  · next hnone => rw [h] at hnone; cases hnone
  · next hsome =>
    rw [h] at hsome
    cases hsome
    rfl

theorem scanAll_nil : scanAll [] = ([], []) := by
  rw [scanAll.eq_def]
  rfl

/-- At the start of any text the characters are read as symbols that add the entries one by one, and
reading goes on after them. -/
def Adds (cs : List Char) (entries : List (String × UInt32)) : Prop :=
  ∀ rest, ∃ units, scanAll (cs ++ rest) = (units ++ (scanAll rest).1, (scanAll rest).2) ∧
    units.map entry = entries

theorem adds_nil : Adds [] [] := fun _ => ⟨[], rfl, rfl⟩

theorem Adds.append {cs cs' : List Char} {es es' : List (String × UInt32)} (h : Adds cs es)
    (h' : Adds cs' es') : Adds (cs ++ cs') (es ++ es') := by
  intro rest
  obtain ⟨units', hscan', hentries'⟩ := h' rest
  obtain ⟨units, hscan, hentries⟩ := h (cs' ++ rest)
  refine ⟨units ++ units', ?_, by rw [List.map_append, hentries, hentries']⟩
  rw [List.append_assoc, hscan, hscan', List.append_assoc]

private theorem adds_replicate {cs : List Char} {e : String × UInt32} (h : Adds cs [e]) (n : Nat) :
    Adds (List.replicate n cs).flatten (List.replicate n e) := by
  induction n with
  | zero => exact adds_nil
  | succ n ih =>
    rw [List.replicate_succ, List.flatten_cons, List.replicate_succ]
    exact h.append ih

theorem adds_flatMap {α : Type} {f : α → List Char} {g : α → List (String × UInt32)} {xs : List α}
    (h : ∀ x ∈ xs, Adds (f x) (g x)) : Adds (xs.flatMap f) (xs.flatMap g) := by
  induction xs with
  | nil => exact adds_nil
  | cons x xs ih =>
    obtain ⟨hx, hxs⟩ := List.forall_mem_cons.1 h
    exact hx.append (ih hxs)

private theorem adds_group {s : ManaSymbol} (h : s.Proper) (n : UInt32) :
    Adds ('\x7b' :: groupChars (s.marks n.toNat)) [(s.key, if s = .generic then n else 1)] := by
  intro rest
  obtain ⟨unit, hscan, hentry⟩ := scan_groupChars h n rest
  exact ⟨[unit], scanAll_of_scan hscan, by rw [List.map_singleton, hentry]⟩

end ManaUnit

namespace ManaCost

/-- What the text of a cost adds one by one for a count: an amount of generic mana at once, any
other symbol by ones. -/
def spelled (e : String × UInt32) : List (String × UInt32) :=
  if e.1 = ManaSymbol.generic.key then [e] else List.replicate e.2.toNat (e.1, 1)

private theorem adds_entryChars {s : ManaSymbol} (h : s.Proper) (n : UInt32) :
    ManaUnit.Adds (entryChars (s.key, n)) (spelled (s.key, n)) := by
  have hgroup := ManaUnit.adds_group h n
  by_cases hs : s = .generic
  · subst hs
    rw [entryChars, spelled, if_pos rfl, if_pos rfl]
    rwa [if_pos rfl] at hgroup
  · have hkey : s.key ≠ ManaSymbol.generic.key := fun heq => hs (ManaSymbol.key_eq_generic heq)
    rw [entryChars, spelled, if_neg hkey, if_neg hkey]
    rw [if_neg hs, ManaSymbol.groupChars_marks hs] at hgroup
    rw [braced, ManaSymbol.key, String.toList_ofList]
    exact ManaUnit.adds_replicate hgroup n.toNat

theorem addTo_append_of_lt {key : String} {es : List (String × UInt32)} (h : ∀ e ∈ es, e.1 < key)
    (n : UInt32) (ds : List (String × UInt32)) : addTo key n (es ++ ds) = es ++ addTo key n ds := by
  induction es with
  | nil => rfl
  | cons e es ih =>
    obtain ⟨he, hes⟩ := List.forall_mem_cons.1 h
    have hne : key ≠ e.1 := fun heq => String.lt_irrefl e.1 (heq ▸ he)
    rw [List.cons_append, addTo, if_neg (String.lt_asymm he), if_neg hne, ih hes, List.cons_append]

private theorem addTo_of_lt {key : String} {es : List (String × UInt32)} (h : ∀ e ∈ es, e.1 < key)
    (n : UInt32) : addTo key n es = es ++ [(key, n)] := by
  have hlast := addTo_append_of_lt h n []
  rwa [List.append_nil] at hlast

private theorem addTo_append_self {key : String} {es : List (String × UInt32)}
    (h : ∀ e ∈ es, e.1 < key)
    (m n : UInt32) : addTo key n (es ++ [(key, m)]) = es ++ [(key, addCapped m n)] := by
  rw [addTo_append_of_lt h, addTo, if_neg (String.lt_irrefl key), if_pos rfl]

def addAll (es entries : List (String × UInt32)) : List (String × UInt32) :=
  entries.foldl (fun es e => addTo e.1 e.2 es) es

private theorem counts_ofList (entries : List (String × UInt32)) :
    (ofList entries).counts = addAll [] entries :=
  (List.foldl_hom counts fun _ _ => rfl).symm

/-- Ones add up to their number, which is too small for the largest count to matter. -/
theorem addAll_replicate {key : String} {es : List (String × UInt32)} (h : ∀ e ∈ es, e.1 < key)
    {m n : UInt32} {k : Nat} (hn : m.toNat + k = n.toNat) :
    addAll (es ++ [(key, m)]) (List.replicate k (key, 1)) = es ++ [(key, n)] := by
  induction k generalizing m with
  | zero =>
    obtain rfl : m = n := UInt32.toNat_inj.1 hn
    rfl
  | succ k ih =>
    have hlt : m.toNat + (1 : UInt32).toNat < UInt32.size := by
      have := n.toNat_lt
      rw [UInt32.toNat_one, UInt32.size]
      omega
    have hone : (m + 1).toNat + k = n.toNat := by
      rw [UInt32.toNat_add, Nat.mod_eq_of_lt hlt, UInt32.toNat_one, Nat.add_assoc, Nat.add_comm 1,
        hn]
    rw [List.replicate_succ, addAll, List.foldl_cons, addTo_append_self h, addCapped, if_pos hlt]
    exact ih hone

private theorem addAll_spelled {e : String × UInt32} {es : List (String × UInt32)}
    (h : ∀ e' ∈ es, e'.1 < e.1) (hzero : e.2 = 0 → e.1 = ManaSymbol.generic.key) :
    addAll es (spelled e) = es ++ [e] := by
  obtain ⟨key, n⟩ := e
  rw [spelled]
  split
  · exact addTo_of_lt h n
  · next hkey =>
    have hpos : n.toNat ≠ 0 := fun h0 => hkey (hzero (UInt32.toNat_inj.1 h0))
    obtain ⟨k, hk⟩ := Nat.exists_eq_succ_of_ne_zero hpos
    have hn : (1 : UInt32).toNat + k = n.toNat := by rw [hk, UInt32.toNat_one, Nat.add_comm]
    rw [hk, List.replicate_succ, addAll, List.foldl_cons, addTo_of_lt h]
    exact addAll_replicate h hn

private theorem addAll_flatMap_spelled {es ds : List (String × UInt32)}
    (hascending : (es ++ ds).Pairwise (·.1 < ·.1))
    (hzero : ∀ e ∈ ds, e.2 = 0 → e.1 = ManaSymbol.generic.key) :
    addAll es (ds.flatMap spelled) = es ++ ds := by
  -- the counts of `es` are complete, those of `ds` are still to be added up
  induction ds generalizing es with
  | nil => rw [List.append_nil]; rfl
  | cons d ds ih =>
    obtain ⟨hd, hds⟩ := List.forall_mem_cons.1 hzero
    have hlt : ∀ e ∈ es, e.1 < d.1 := fun e he =>
      (List.pairwise_append.1 hascending).2.2 e he d List.mem_cons_self
    rw [List.append_cons] at hascending ⊢
    rw [List.flatMap_cons, addAll, List.foldl_append]
    exact (congrArg (addAll · _) (addAll_spelled hlt hd)).trans (ih hascending hds)

/-- A cost as texts have it: it counts symbols that can be written, and it counts none of them zero
times but generic mana, whose amount may be zero. -/
def Writable (cost : ManaCost) : Prop :=
  ∀ e ∈ cost.counts, (∃ s : ManaSymbol, s.Proper ∧ s.key = e.1) ∧
    (e.2 = 0 → e.1 = ManaSymbol.generic.key)

private theorem ofList_spelled {cost : ManaCost} (h : cost.Writable) :
    ofList (cost.counts.flatMap spelled) = cost := by
  refine eq_iff_counts_eq.2 ?_
  rw [counts_ofList]
  exact addAll_flatMap_spelled cost.ascending fun e he => (h e he).2

/-- Symbols that are added up to the end of a text make up its cost. -/
theorem scan_of_adds {cs : List Char} {entries : List (String × UInt32)}
    (h : ManaUnit.Adds cs entries) : scan cs = (ofList entries, []) := by
  obtain ⟨units, hscan, rfl⟩ := h []
  rw [List.append_nil, ManaUnit.scanAll_nil, List.append_nil] at hscan
  rw [scan, hscan]
  rfl

private theorem scan_text {cost : ManaCost} (h : cost.Writable) :
    scan cost.text.toList = (cost, []) := by
  have hadds : ManaUnit.Adds (cost.counts.flatMap entryChars) (cost.counts.flatMap spelled) :=
    ManaUnit.adds_flatMap fun e he => by
      obtain ⟨⟨s, hs, hkey⟩, -⟩ := h e he
      have := adds_entryChars hs e.2
      rwa [hkey] at this
  rw [text, String.toList_ofList, scan_of_adds hadds, ofList_spelled h]

theorem utf8ByteSize_ofList {cs : List Char} (h : ∀ c ∈ cs, c.utf8Size = 1) :
    (String.ofList cs).utf8ByteSize = cs.length := by
  induction cs with
  | nil => rfl
  | cons c cs ih =>
    obtain ⟨hc, hcs⟩ := List.forall_mem_cons.1 h
    rw [String.ofList_cons, String.utf8ByteSize_append, String.utf8ByteSize_singleton, hc, ih hcs,
      List.length_cons, Nat.add_comm]

theorem utf8Size_of_isDigit {c : Char} (h : c.isDigit = true) : c.utf8Size = 1 := by
  simp only [Char.isDigit, Bool.and_eq_true, decide_eq_true_eq] at h
  exact Char.utf8Size_eq_one_iff.2 (UInt32.le_trans h.2 (by decide))

private theorem utf8Size_of_mem_keyChars (s : ManaSymbol) : ∀ c ∈ s.keyChars, c.utf8Size = 1 := by
  have hletter : ∀ c : Color, c.letter.utf8Size = 1 := fun c => by cases c <;> rfl
  cases s <;>
    simp only [ManaSymbol.keyChars, List.forall_mem_cons, List.not_mem_nil, false_implies,
      implies_true, hletter, true_and, and_true] <;>
    decide

private theorem utf8Size_of_mem_braced {key : List Char} (h : ∀ c ∈ key, c.utf8Size = 1) :
    ∀ c ∈ braced key, c.utf8Size = 1 := by
  intro c hc
  simp only [braced, List.cons_append, List.mem_cons, List.mem_append, List.not_mem_nil,
    or_false] at hc
  rcases hc with rfl | hc | rfl
  · rfl
  · exact h c hc
  · rfl

private theorem utf8Size_of_mem_entryChars (s : ManaSymbol) (n : UInt32) :
    ∀ c ∈ entryChars (s.key, n), c.utf8Size = 1 := by
  rw [entryChars]
  split
  · exact utf8Size_of_mem_braced fun c hc =>
      utf8Size_of_isDigit (ManaMark.isDigit_of_mem_toDigits hc)
  · intro c hc
    obtain ⟨group, hgroup, hc⟩ := List.mem_flatten.1 hc
    obtain ⟨-, rfl⟩ := List.mem_replicate.1 hgroup
    refine utf8Size_of_mem_braced ?_ c hc
    rw [ManaSymbol.key, String.toList_ofList]
    exact utf8Size_of_mem_keyChars s

private theorem utf8ByteSize_text {cost : ManaCost} (h : cost.Writable) :
    cost.text.utf8ByteSize = cost.text.toList.length := by
  rw [text, String.toList_ofList]
  refine utf8ByteSize_ofList fun c hc => ?_
  obtain ⟨e, he, hc⟩ := List.mem_flatMap.1 hc
  obtain ⟨⟨s, -, hkey⟩, -⟩ := h e he
  exact utf8Size_of_mem_entryChars s e.2 c (hkey ▸ hc)

theorem readAt_zero (s : String) :
    readAt s 0 = ((scan s.toList).1, s.toList.length - (scan s.toList).2.length) := by
  rw [readAt, fromByte?]

private theorem readAt_zero_text {cost : ManaCost} (h : cost.Writable) :
    readAt cost.text 0 = (cost, cost.text.utf8ByteSize) := by
  rw [readAt_zero, scan_text h, utf8ByteSize_text h]
  rfl

private theorem symbol_eq_generic_of_ofMarks? {marks : List ManaMark} {unit : ManaUnit}
    (h : ManaUnit.ofMarks? marks = some unit) (hzero : unit.amount = 0) :
    unit.symbol = .generic := by
  unfold ManaUnit.ofMarks? at h
  split at h <;> simp only [Option.ite_none_right_eq_some, Option.some.injEq, reduceCtorEq] at h
  all_goals first
    | (subst h; first | rfl | cases hzero)
    | (obtain ⟨-, rfl⟩ := h; cases hzero)

private theorem Writable.add {cost : ManaCost} (h : cost.Writable) {s : ManaSymbol} (hs : s.Proper)
    {n : UInt32} (hzero : n = 0 → s = .generic) : (cost.add s.key n).Writable := by
  intro e he
  rcases mem_addTo he with he | ⟨hkey, hamount⟩
  · exact h e he
  · exact ⟨⟨s, hs, hkey.symm⟩, fun h0 => by rw [hkey, hzero (hamount h0)]⟩

theorem writable_scan (cs : List Char) : (scan cs).1.Writable := by
  refine List.foldlRecOn _ _ (motive := Writable) (List.forall_mem_nil _) fun cost hcost e he => ?_
  obtain ⟨unit, hunit, rfl⟩ := List.mem_map.1 he
  obtain ⟨cs', rest, hscan⟩ := ManaUnit.exists_scan_of_mem hunit
  obtain ⟨marks, hdistinct, hmarks⟩ := ManaUnit.exists_marks_of_scan hscan
  exact hcost.add (ManaSymbol.proper_of_ofMarks? hdistinct hmarks)
    (symbol_eq_generic_of_ofMarks? hmarks)

theorem writable_readAt (s : String) (start : Nat) : (readAt s start).1.Writable := by
  rw [readAt]
  split
  · exact List.forall_mem_nil _
  · exact writable_scan _

/-- The costs that texts have are read back from their own texts, to the last byte, and have that
text again. They are all costs whose symbols can be written, generic mana in any amount and any
other symbol at least once. -/
theorem text_reads_back :
    (∀ (s : String) (start : Nat),
      readAt (readAt s start).1.text 0 =
        ((readAt s start).1, (readAt s start).1.text.utf8ByteSize) ∧
      (readAt (readAt s start).1.text 0).1.text = (readAt s start).1.text) ∧
    ∀ cost : ManaCost, cost.Writable ↔ ∃ s start, (readAt s start).1 = cost := by
  refine ⟨fun s start => ?_, fun cost => ⟨fun h => ?_, ?_⟩⟩
  · have hread := readAt_zero_text (writable_readAt s start)
    exact ⟨hread, by rw [hread]⟩
  · exact ⟨cost.text, 0, by rw [readAt_zero_text h]⟩
  · rintro ⟨s, start, rfl⟩
    exact writable_readAt s start

example : (read "xx\x7b0\x7d\x7bu/w\x7d\x7b2/g\x7d3").text =
    "\x7b2/G\x7d\x7b3\x7d\x7bW/U\x7d\x7bX\x7d\x7bX\x7d" := by cbv

end ManaCost

end CardSearch
