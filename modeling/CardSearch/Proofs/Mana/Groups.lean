import CardSearch.Proofs.Mana.RoundTrip
import CardSearch.Proofs.Text.Letters
import CardSearch.Text.Search
import Mathlib.Data.List.Permutation
import Mathlib.Data.List.TakeWhile

/-!
# The alternatives of a group

A group is read as a symbol if what stands between its strokes are marks, one to three of them, that
are different and stand for a symbol together. So what follows the group does not matter. Neither
does the order of the marks: they are sorted into colours and others before a symbol is chosen, and
the key of a symbol names its two colours in the order of the wheel. The case of a letter is lost as
soon as it is read.
-/

namespace CardSearch

namespace ManaMark

def Spells (cs : List Char) (m : ManaMark) : Prop := scan cs = some (m, [])

variable {cs : List Char} {m : ManaMark}

theorem spells_iff : Spells cs m ↔
    (∃ c, c.isDigit = false ∧ ofLetter? c = some m ∧ cs = [c]) ∨
      cs ≠ [] ∧ (∀ c ∈ cs, c.isDigit = true) ∧ Text.digitsValue cs < UInt32.size ∧
        m = number (Text.digitsValue cs) := by
  rw [Spells]
  cases cs with
  | nil => simp [scan]
  | cons c cs =>
    rw [scan]
    split
    case isTrue hdigit =>
      rw [Option.ite_none_right_eq_some, Option.some_inj, Prod.mk.injEq, List.dropWhile_eq_nil_iff]
      constructor
      · rintro ⟨hvalue, rfl, hcs⟩
        rw [List.takeWhile_eq_self_iff.2 hcs] at hvalue ⊢
        exact .inr ⟨List.cons_ne_nil _ _, List.forall_mem_cons.2 ⟨hdigit, hcs⟩, hvalue, rfl⟩
      · rintro (⟨c', hc', -, heq⟩ | ⟨-, hall, hvalue, rfl⟩)
        · cases heq
          exact absurd (hdigit.symm.trans hc') (by decide)
        · have hcs := (List.forall_mem_cons.1 hall).2
          rw [List.takeWhile_eq_self_iff.2 hcs]
          exact ⟨hvalue, rfl, hcs⟩
    case isFalse hdigit =>
      rw [Option.map_eq_some_iff]
      constructor
      · rintro ⟨m', hm', heq⟩
        cases heq
        exact .inl ⟨c, Bool.eq_false_iff.2 hdigit, hm', rfl⟩
      · rintro (⟨c', -, hm', heq⟩ | ⟨-, hall, -⟩)
        · cases heq
          exact ⟨m, hm', rfl⟩
        · exact absurd (hall c List.mem_cons_self) hdigit

theorem Spells.scan_append (h : Spells cs m) {c : Char} (hc : c.isDigit = false)
    (rest : List Char) : scan (cs ++ c :: rest) = some (m, c :: rest) := by
  rcases spells_iff.1 h with ⟨d, hd, hm, rfl⟩ | ⟨hne, hall, hvalue, rfl⟩
  · rw [List.singleton_append, scan, if_neg (Bool.eq_false_iff.1 hd), hm, Option.map_some]
  · obtain ⟨d, ds, rfl⟩ := List.exists_cons_of_ne_nil hne
    obtain ⟨hd, hds⟩ := List.forall_mem_cons.1 hall
    rw [List.cons_append, scan, if_pos hd, List.takeWhile_append_of_pos hds,
      List.takeWhile_cons_of_neg (by simp [hc]), List.append_nil,
      List.dropWhile_append_of_pos hds, List.dropWhile_cons_of_neg (by simp [hc])]
    exact if_pos hvalue

theorem exists_spells_of_scan {rest : List Char} (h : scan cs = some (m, rest)) :
    ∃ ds, Spells ds m ∧ cs = ds ++ rest := by
  cases cs with
  | nil => cases h
  | cons c cs =>
    rw [scan] at h
    split at h
    case isTrue hdigit =>
      obtain ⟨hvalue, heq⟩ := Option.ite_none_right_eq_some.1 h
      cases heq
      refine ⟨c :: cs.takeWhile Char.isDigit, spells_iff.2 (.inr ⟨List.cons_ne_nil _ _, ?_, hvalue,
        rfl⟩), by rw [List.cons_append, List.takeWhile_append_dropWhile]⟩
      exact List.forall_mem_cons.2 ⟨hdigit, fun d hd => List.mem_takeWhile_imp hd⟩
    case isFalse hdigit =>
      obtain ⟨m', hm', heq⟩ := Option.map_eq_some_iff.1 h
      cases heq
      exact ⟨[c], spells_iff.2 (.inl ⟨c, Bool.eq_false_iff.2 hdigit, hm', rfl⟩), rfl⟩

private theorem utf8Size_of_ofLetter? {c : Char} (h : ofLetter? c = some m) : c.utf8Size = 1 := by
  by_cases hlower : c.isLower = true
  · exact Text.utf8Size_of_isLower hlower
  · rw [ofLetter?, Text.toUpper_of_not_isLower hlower] at h
    split at h
    all_goals first | rfl | cases h

theorem Spells.utf8Size (h : Spells cs m) : ∀ c ∈ cs, c.utf8Size = 1 := by
  rcases spells_iff.1 h with ⟨c, -, hm, rfl⟩ | ⟨-, hall, -⟩
  · exact List.forall_mem_singleton.2 (utf8Size_of_ofLetter? hm)
  · exact fun c hc => ManaCost.utf8Size_of_isDigit (hall c hc)

theorem Spells.stroke_not_mem (h : Spells cs m) : '/' ∉ cs := by
  rcases spells_iff.1 h with ⟨c, -, hm, rfl⟩ | ⟨-, hall, -⟩
  · rw [List.mem_singleton]
    rintro rfl
    cases hm
  · exact fun hc => absurd (hall _ hc) (by decide)

private theorem map_toUpper_of_digits {cs : List Char} (h : ∀ c ∈ cs, c.isDigit = true) :
    cs.map Char.toUpper = cs :=
  (List.map_congr_left fun c hc =>
    (Text.toUpper_eq_iff (Text.isAlpha_of_isDigit (h c hc))).2 rfl).trans (List.map_id' cs)

private theorem ofLetter?_toUpper (c : Char) : ofLetter? c.toUpper = ofLetter? c := by
  rw [ofLetter?, ofLetter?, Text.toUpper_toUpper]

theorem scan_map_toUpper (cs : List Char) :
    scan (cs.map Char.toUpper) = (scan cs).map fun r => (r.1, r.2.map Char.toUpper) := by
  cases cs with
  | nil => rfl
  | cons c cs =>
    have hdigit : Char.isDigit ∘ Char.toUpper = Char.isDigit := funext Text.isDigit_toUpper
    rw [List.map_cons, scan, scan, Text.isDigit_toUpper, List.takeWhile_map, List.dropWhile_map, hdigit,
      map_toUpper_of_digits fun d hd => List.mem_takeWhile_imp hd, ofLetter?_toUpper]
    split
    case isTrue hc =>
      rw [(Text.toUpper_eq_iff (Text.isAlpha_of_isDigit hc)).2 rfl]
      dsimp only
      split <;> rfl
    case isFalse hc => cases ofLetter? c <;> rfl

end ManaMark

namespace ManaUnit

/-- Alternatives between strokes, and the brace that closes the group. -/
def closed (as : List (List Char)) : List Char := ['/'].intercalate as ++ ['\x7d']

private theorem closed_singleton (a : List Char) : closed [a] = a ++ ['\x7d'] := by
  rw [closed, List.intercalate_singleton]

private theorem closed_cons_cons (a a' : List Char) (as : List (List Char)) :
    closed (a :: a' :: as) = a ++ '/' :: closed (a' :: as) := by
  rw [closed, closed, List.intercalate_cons_cons]
  simp only [List.append_assoc, List.cons_append, List.nil_append]

theorem forall_mem_closed {p : Char → Prop} (hstroke : p '/') (hclosing : p '\x7d')
    {as : List (List Char)} (h : ∀ a ∈ as, ∀ c ∈ a, p c) : ∀ c ∈ closed as, p c := by
  have hinner : ∀ c ∈ ['/'].intercalate as, p c :=
    Text.forall_mem_intercalate (List.forall_mem_singleton.2 hstroke) h
  exact List.forall_mem_append.2 ⟨hinner, List.forall_mem_singleton.2 hclosing⟩

/-- Marks are read if they stand between the strokes, each of them alone. -/
theorem scanMarks_eq_some_iff {more : Nat} {cs rest : List Char} {ms : List ManaMark} :
    scanMarks more cs = some (ms, rest) ↔ ∃ as : List (List Char), as ≠ [] ∧
      as.length ≤ more + 1 ∧ List.Forall₂ ManaMark.Spells as ms ∧ cs = closed as ++ rest := by
  constructor
  · intro h
    induction more generalizing cs ms with
    | zero =>
      rw [scanMarks] at h
      split at h
      next mark after hscan =>
        obtain ⟨a, ha, rfl⟩ := ManaMark.exists_spells_of_scan hscan
        cases h
        exact ⟨[a], List.cons_ne_nil _ _, Nat.le_refl _, .cons ha .nil, by
          rw [closed_singleton, List.append_assoc]; rfl⟩
      next => cases h
      next => cases h
    | succ more ih =>
      rw [scanMarks] at h
      split at h
      next mark after hscan =>
        obtain ⟨a, ha, rfl⟩ := ManaMark.exists_spells_of_scan hscan
        cases h
        exact ⟨[a], List.cons_ne_nil _ _, by simp, .cons ha .nil, by
          rw [closed_singleton, List.append_assoc]; rfl⟩
      next mark after hscan =>
        obtain ⟨a, ha, rfl⟩ := ManaMark.exists_spells_of_scan hscan
        obtain ⟨⟨ms', rest'⟩, hrest, heq⟩ := Option.map_eq_some_iff.1 h
        cases heq
        obtain ⟨as, hne, hlength, has, rfl⟩ := ih hrest
        obtain ⟨a', as, rfl⟩ := List.exists_cons_of_ne_nil hne
        exact ⟨a :: a' :: as, List.cons_ne_nil _ _, Nat.succ_le_succ hlength, .cons ha has, by
          rw [closed_cons_cons, List.append_assoc, List.cons_append]⟩
      next => cases h
  · rintro ⟨as, hne, hlength, has, rfl⟩
    induction has generalizing more with
    | nil => exact absurd rfl hne
    | @cons a m as ms ha has ih =>
      cases as with
      | nil =>
        cases has
        rw [closed_singleton, List.append_assoc, List.singleton_append, scanMarks,
          ha.scan_append rfl]
        rfl
      | cons a' as =>
        cases more with
        | zero => cases Nat.le_of_succ_le_succ hlength
        | succ more =>
          have hrest := ih (List.cons_ne_nil _ _) (Nat.le_of_succ_le_succ hlength)
          rw [closed_cons_cons, List.append_assoc, List.cons_append, scanMarks,
            ha.scan_append rfl]
          simp only [hrest, Option.map_some]

def Stands (as : List (List Char)) (unit : ManaUnit) : Prop :=
  as ≠ [] ∧ as.length ≤ 3 ∧ ∃ ms, List.Forall₂ ManaMark.Spells as ms ∧ distinct ms = true ∧
    ofMarks? ms = some unit

theorem scan_brace_iff {cs rest : List Char} {unit : ManaUnit} :
    scan ('\x7b' :: cs) = some (unit, rest) ↔ ∃ as, Stands as unit ∧ cs = closed as ++ rest := by
  rw [scan]
  constructor
  · intro h
    split at h
    next marks after hmarks =>
      obtain ⟨hdistinct, h⟩ := Option.ite_none_right_eq_some.1 h
      obtain ⟨unit', hunit, heq⟩ := Option.map_eq_some_iff.1 h
      cases heq
      obtain ⟨as, hne, hlength, has, rfl⟩ := scanMarks_eq_some_iff.1 hmarks
      exact ⟨as, ⟨hne, hlength, marks, has, hdistinct, hunit⟩, rfl⟩
    next => cases h
  · rintro ⟨as, ⟨hne, hlength, ms, has, hdistinct, hunit⟩, rfl⟩
    have hmarks : scanMarks 2 (closed as ++ rest) = some (ms, rest) :=
      scanMarks_eq_some_iff.2 ⟨as, hne, hlength, has, rfl⟩
    simp only [hmarks, if_pos hdistinct, hunit, Option.map_some]

theorem Stands.forall_spells {as : List (List Char)} {unit : ManaUnit} (h : Stands as unit) :
    ∀ a ∈ as, ∃ m, ManaMark.Spells a m := by
  obtain ⟨-, -, ms, has, -⟩ := h
  exact ((List.forall₂_and_left as ms).1 (has.imp fun _ m ha => ⟨⟨m, ha⟩, ha⟩)).1

/-- The alternatives of a group that is read as a symbol are those between its strokes. -/
theorem stands_of_scan {as : List (List Char)} {unit : ManaUnit}
    (h : scan ('\x7b' :: closed as) = some (unit, [])) (hstroke : ∀ a ∈ as, '/' ∉ a) :
    Stands as unit := by
  obtain ⟨as', has', heq⟩ := scan_brace_iff.1 h
  have hinner : ['/'].intercalate as = ['/'].intercalate as' := by
    rw [List.append_nil] at heq
    exact List.append_cancel_right heq
  have hne : as ≠ [] := by
    rintro rfl
    cases h
  have hstroke' : ∀ a ∈ as', '/' ∉ a := fun a ha =>
    let ⟨_, hm⟩ := has'.forall_spells a ha
    hm.stroke_not_mem
  have hsplit : as = as' :=
    calc as = (['/'].intercalate as).splitOn '/' := (List.splitOn_intercalate '/' hstroke hne).symm
      _ = (['/'].intercalate as').splitOn '/' := by rw [hinner]
      _ = as' := List.splitOn_intercalate '/' hstroke' has'.1
  exact hsplit ▸ has'

private theorem clashes_comm (m m' : ManaMark) : m.clashes m' = m'.clashes m := by
  cases m <;> cases m' <;> simp [ManaMark.clashes, eq_comm]

theorem distinct_iff {ms : List ManaMark} :
    distinct ms = true ↔ ms.Pairwise fun m m' => m.clashes m' = false := by
  induction ms with
  | nil => exact iff_of_true rfl .nil
  | cons m ms ih =>
    rw [distinct, Bool.and_eq_true, List.pairwise_cons, ih, List.all_eq_true]
    simp only [Bool.not_eq_true']

theorem distinct_of_perm {ms ms' : List ManaMark} (h : distinct ms = true) (hperm : ms.Perm ms') :
    distinct ms' = true := by
  rw [distinct_iff] at h ⊢
  exact h.perm hperm fun {m m'} hclash => (clashes_comm m' m).trans hclash

/-- Two colours make up the same key in either order. -/
theorem entry_hybrid_comm {a b : Color} (h : a ≠ b) :
    entry ⟨.hybrid a b, 1⟩ = entry ⟨.hybrid b a, 1⟩ ∧
      entry ⟨.hybridPhyrexian a b, 1⟩ = entry ⟨.hybridPhyrexian b a, 1⟩ := by
  simp only [entry, ManaSymbol.key, ManaSymbol.keyChars, Color.ordered_comm a b h, and_self]

/-- A symbol takes at most two colours, and at most one mark beside them. -/
theorem length_le_of_ofMarks? {ms : List ManaMark} {unit : ManaUnit} (h : ofMarks? ms = some unit) :
    (ms.filter (·.color?.isNone)).length ≤ 1 ∧ (ms.filterMap ManaMark.color?).length ≤ 2 := by
  unfold ofMarks? at h
  split at h
  case h_11 => cases h
  all_goals simp [*]

theorem exists_ofMarks?_of_perm {ms ms' : List ManaMark} {unit : ManaUnit}
    (hdistinct : distinct ms = true) (hperm : ms.Perm ms') (h : ofMarks? ms = some unit) :
    ∃ unit', ofMarks? ms' = some unit' ∧ unit'.entry = unit.entry := by
  have hothers := hperm.filter (·.color?.isNone)
  have hcolors := hperm.filterMap ManaMark.color?
  have hnodup := ManaSymbol.nodup_colors_of_distinct hdistinct
  obtain ⟨hone, htwo⟩ := length_le_of_ofMarks? h
  unfold ofMarks? at h ⊢
  generalize ms.filter (·.color?.isNone) = others at *
  generalize ms.filterMap ManaMark.color? = colors at *
  generalize ms'.filter (·.color?.isNone) = others' at *
  generalize ms'.filterMap ManaMark.color? = colors' at *
  have hsame : others' = others := by
    match others, hone with
    | [], _ => exact hothers.symm.eq_nil
    | [m], _ => exact hothers.symm.eq_singleton
  subst hsame
  match colors, htwo with
  | [], _ => rw [hcolors.symm.eq_nil]; exact ⟨unit, h, rfl⟩
  | [c], _ => rw [hcolors.symm.eq_singleton]; exact ⟨unit, h, rfl⟩
  | [a, b], _ =>
    have hne : a ≠ b := fun heq => by simp [heq] at hnodup
    rcases List.pair_perm.1 hcolors with rfl | rfl
    · exact ⟨unit, h, rfl⟩
    · -- a pair of colours stands alone or beside phyrexian mana
      match others', hone with
      | [], _ =>
        cases h
        exact ⟨_, rfl, (entry_hybrid_comm hne).1.symm⟩
      | [.phyrexian], _ =>
        cases h
        exact ⟨_, rfl, (entry_hybrid_comm hne).2.symm⟩
      | [.number _], _ | [.colorless], _ | [.chosen], _ | [.snow], _ => cases h

theorem Stands.exists_of_perm {as as' : List (List Char)} {unit : ManaUnit} (h : Stands as unit)
    (hperm : as.Perm as') : ∃ unit', Stands as' unit' ∧ unit'.entry = unit.entry := by
  obtain ⟨hne, hlength, ms, has, hdistinct, hunit⟩ := h
  obtain ⟨ms', has', hperm'⟩ := List.perm_comp_forall₂ hperm.symm has
  obtain ⟨unit', hunit', hentry⟩ := exists_ofMarks?_of_perm hdistinct hperm'.symm hunit
  refine ⟨unit', ⟨?_, hperm.length_eq ▸ hlength, ms', has',
    distinct_of_perm hdistinct hperm'.symm, hunit'⟩, hentry⟩
  rintro rfl
  exact hne hperm.eq_nil

private theorem scanMarks_map_toUpper (more : Nat) (cs : List Char) :
    scanMarks more (cs.map Char.toUpper) =
      (scanMarks more cs).map fun r => (r.1, r.2.map Char.toUpper) := by
  fun_induction scanMarks more cs with
  | case1 more cs mark rest hscan =>
    rw [scanMarks, ManaMark.scan_map_toUpper, hscan]
    rfl
  | case2 cs mark rest hscan =>
    rw [scanMarks, ManaMark.scan_map_toUpper, hscan]
    rfl
  | case3 cs mark rest hscan more ih =>
    rw [scanMarks, ManaMark.scan_map_toUpper, hscan]
    simp only [Option.map_some, List.map_cons]
    rw [(Text.toUpper_eq_iff (d := '/') rfl).2 rfl]
    simp only [ih]
    cases scanMarks more rest <;> rfl
  | case4 more cs hclosing hstroke =>
    rw [scanMarks, ManaMark.scan_map_toUpper]
    cases hscan : ManaMark.scan cs with
    | none => rfl
    | some scanned =>
      obtain ⟨mark, rest⟩ := scanned
      cases rest with
      | nil => rfl
      | cons c rest =>
        have hclosing : c.toUpper ≠ '\x7d' := fun h =>
          hclosing mark rest ((Text.toUpper_eq_iff rfl).1 h ▸ hscan)
        have hstroke : c.toUpper ≠ '/' := fun h =>
          hstroke mark rest ((Text.toUpper_eq_iff rfl).1 h ▸ hscan)
        simp only [Option.map_some, Option.map_none, List.map_cons]
        split
        · next heq => exact absurd (List.cons.inj (Prod.mk.inj (Option.some.inj heq)).2).1 hclosing
        · next heq => exact absurd (List.cons.inj (Prod.mk.inj (Option.some.inj heq)).2).1 hstroke
        · rfl

theorem scan_brace_map_toUpper (cs : List Char) :
    scan ('\x7b' :: cs.map Char.toUpper) =
      (scan ('\x7b' :: cs)).map fun r => (r.1, r.2.map Char.toUpper) := by
  rw [scan, scan, scanMarks_map_toUpper]
  cases scanMarks 2 cs with
  | none => rfl
  | some scanned =>
    obtain ⟨marks, rest⟩ := scanned
    simp only [Option.map_some]
    split
    · cases ofMarks? marks <;> rfl
    · rfl

end ManaUnit

end CardSearch
