import CardSearch.Text.Search

/-!
# Text outside parentheses

What is left of a rules text without its reminders, said character by character: a character stands
as deep as there are parentheses open before it, and those outside all parentheses are left. The text
is read in segments between parentheses instead; both ways lead to the same text unless a parenthesis
closes where none is open, since the segment before such a one is lost.
-/

namespace CardSearch.Text

/-- The characters that stand outside all parentheses, `depth` of which are open; a blank directly
before an opening parenthesis goes with it, and a closing parenthesis where none is open is left
out alone. -/
def outsideParentheses (depth : Nat) : List Char → List Char
  | [] => []
  | c :: cs =>
    if c = '(' then outsideParentheses (depth + 1) cs
    else if c = ')' then outsideParentheses (depth - 1) cs
    else if depth = 0 ∧ ¬ (c = ' ' ∧ cs.head? = some '(') then c :: outsideParentheses depth cs
    else outsideParentheses depth cs

/-- A rules text without its reminders, as a reader would cross them out. -/
def withoutParenthesized (s : String) : String := String.ofList (outsideParentheses 0 s.toList)

def ClosesOpen (depth : Nat) : List Char → Prop
  | [] => True
  | c :: cs =>
    if c = '(' then ClosesOpen (depth + 1) cs
    else if c = ')' then 0 < depth ∧ ClosesOpen (depth - 1) cs
    else ClosesOpen depth cs

instance instDecidableClosesOpen (depth : Nat) : (cs : List Char) → Decidable (ClosesOpen depth cs)
  | [] => .isTrue trivial
  | c :: cs =>
    haveI (n : Nat) : Decidable (ClosesOpen n cs) := instDecidableClosesOpen n cs
    inferInstanceAs (Decidable (if c = '(' then ClosesOpen (depth + 1) cs
      else if c = ')' then 0 < depth ∧ ClosesOpen (depth - 1) cs
      else ClosesOpen depth cs))

def keptSegment (segment cs : List Char) : List Char :=
  if cs.head? = some '(' then dropEndBlank segment else segment.reverse

theorem keptSegment_nil (cs : List Char) : keptSegment [] cs = [] := by
  unfold keptSegment
  split <;> rfl

private theorem keptSegment_open (segment cs : List Char) :
    keptSegment segment ('(' :: cs) = dropEndBlank segment := rfl

/-- A segment ends in a character that is kept, unless it is a blank before a parenthesis. -/
theorem keptSegment_cons (segment cs : List Char) {c : Char} (ho : c ≠ '(') (hc : c ≠ ')') :
    keptSegment (c :: segment) cs ++ outsideParentheses 0 cs =
      segment.reverse ++ outsideParentheses 0 (c :: cs) := by
  rw [outsideParentheses, if_neg ho, if_neg hc]
  by_cases hopens : cs.head? = some '('
  · by_cases hblank : c = ' '
    · subst hblank
      rw [keptSegment, if_pos hopens, if_neg fun h => h.2 ⟨rfl, hopens⟩, dropEndBlank]
    · rw [keptSegment, if_pos hopens, if_pos ⟨rfl, fun h => hblank h.1⟩, dropEndBlank]
      · rw [List.reverse_cons, List.append_assoc, List.singleton_append]
      · rintro rest heq
        exact hblank (List.cons.inj heq).1
  · rw [keptSegment, if_neg hopens, if_pos ⟨rfl, fun h => hopens h.2⟩, List.reverse_cons,
      List.append_assoc, List.singleton_append]

/-- What is outside all parentheses once `segment` has been read since the last one, nearest character
first: the segment, unless it stands inside, and what follows. -/
def outsideFrom (depth : Int) (segment cs : List Char) : List Char :=
  (if depth ≤ 0 then keptSegment segment cs else []) ++ outsideParentheses depth.toNat cs

section Outside

variable {depth : Int} (segment cs : List Char)

theorem outsideFrom_nil (depth : Int) :
    outsideFrom depth segment [] = if depth ≤ 0 then segment.reverse else [] := by
  rw [outsideFrom, outsideParentheses, List.append_nil]
  rfl

theorem outsideFrom_opening (h : depth ≤ 0) :
    outsideFrom depth segment ('(' :: cs) = dropEndBlank segment ++ outsideFrom 1 [] cs := by
  rw [outsideFrom, if_pos h, keptSegment_open, outsideParentheses, if_pos rfl,
    Int.toNat_of_nonpos h, outsideFrom, if_neg (by omega), List.nil_append]
  rfl

theorem outsideFrom_nested (h : 0 < depth) :
    outsideFrom depth segment ('(' :: cs) = outsideFrom (depth + 1) [] cs := by
  have hnext : (depth + 1).toNat = depth.toNat + 1 := by omega
  rw [outsideFrom, if_neg (by omega), outsideParentheses, if_pos rfl, outsideFrom,
    if_neg (by omega), hnext]

theorem outsideFrom_closing (depth : Int) :
    outsideFrom depth segment (')' :: cs) =
      (if depth ≤ 0 then segment.reverse else []) ++ outsideFrom (depth - 1) [] cs := by
  have hparen : ¬ (')' = '(') := by decide
  have hnext : (depth - 1).toNat = depth.toNat - 1 := by omega
  rw [outsideFrom, outsideFrom, outsideParentheses, if_neg hparen, if_pos rfl, keptSegment_nil,
    ite_self, List.nil_append, hnext]
  rfl

theorem outsideFrom_char (depth : Int) {c : Char} (ho : c ≠ '(') (hc : c ≠ ')') :
    outsideFrom depth segment (c :: cs) = outsideFrom depth (c :: segment) cs := by
  rw [outsideFrom, outsideFrom]
  by_cases hdepth : depth ≤ 0
  · have hhead : keptSegment segment (c :: cs) = segment.reverse :=
      if_neg fun hc => ho (Option.some.inj hc)
    rw [if_pos hdepth, if_pos hdepth, Int.toNat_of_nonpos hdepth, keptSegment_cons segment cs ho hc,
      hhead]
  · rw [if_neg hdepth, if_neg hdepth, outsideParentheses, if_neg ho, if_neg hc, if_neg (by omega)]

end Outside

/-- Nothing is ever left but what is outside all parentheses. -/
theorem withoutRemindersAt_sublist (depth : Int) (segment cs : List Char) :
    (withoutRemindersAt depth segment cs).Sublist (outsideFrom depth segment cs) := by
  fun_induction withoutRemindersAt depth segment cs with
  | case1 segment =>
    have hall : outsideFrom 0 segment [] = segment.reverse := by
      rw [outsideFrom_nil, if_pos (Int.le_refl 0)]
    exact hall ▸ .refl _
  | case2 => exact List.nil_sublist _
  | case3 depth segment cs h ih =>
    rw [outsideFrom_opening _ _ h]
    exact ih.append_left _
  | case4 depth segment cs h ih =>
    rw [outsideFrom_nested _ _ (Int.not_le.1 h)]
    exact ih
  | case5 depth segment cs ih =>
    rw [outsideFrom_closing]
    exact ih.trans (List.sublist_append_right _ _)
  | case6 depth segment c cs ho hc ih =>
    rw [outsideFrom_char _ _ _ ho hc]
    exact ih

/-- No text outside all parentheses is lost; `pending` says that such text may stand directly before.
It is lost before a parenthesis that closes where none is open, and behind such a one if no other
parenthesis follows. -/
def LosesNothing (depth : Int) (pending : Bool) : List Char → Prop
  | [] => 0 ≤ depth ∨ pending = false
  | c :: cs =>
    if c = '(' then LosesNothing (max depth 0 + 1) false cs
    else if c = ')' then (0 < depth ∨ pending = false) ∧ LosesNothing (depth - 1) false cs
    else LosesNothing depth true cs

instance instDecidableLosesNothing (depth : Int) (pending : Bool) :
    (cs : List Char) → Decidable (LosesNothing depth pending cs)
  | [] => inferInstanceAs (Decidable (0 ≤ depth ∨ pending = false))
  | c :: cs =>
    haveI (n : Int) (b : Bool) : Decidable (LosesNothing n b cs) := instDecidableLosesNothing n b cs
    inferInstanceAs (Decidable (if c = '(' then LosesNothing (max depth 0 + 1) false cs
      else if c = ')' then (0 < depth ∨ pending = false) ∧ LosesNothing (depth - 1) false cs
      else LosesNothing depth true cs))

/-- All that is outside parentheses is left exactly if nothing of it is lost. -/
theorem withoutRemindersAt_eq_iff (depth : Int) (segment cs : List Char) :
    withoutRemindersAt depth segment cs = outsideFrom depth segment cs ↔
      LosesNothing depth (!segment.isEmpty) cs := by
  fun_induction withoutRemindersAt depth segment cs with
  | case1 segment => simp [outsideFrom_nil, LosesNothing]
  | case2 depth segment h =>
    rw [outsideFrom_nil, LosesNothing]
    by_cases hdepth : depth ≤ 0
    · have hneg : ¬ 0 ≤ depth := by omega
      cases segment <;> simp [hdepth, hneg]
    · simp [hdepth, show 0 ≤ depth by omega]
  | case3 depth segment cs h ih =>
    rw [outsideFrom_opening _ _ h, List.append_cancel_left_eq, ih, LosesNothing, if_pos rfl,
      Int.max_eq_right h]
    rfl
  | case4 depth segment cs h ih =>
    have hdepth : 0 < depth := Int.not_le.1 h
    rw [outsideFrom_nested _ _ hdepth, ih, LosesNothing, if_pos rfl,
      Int.max_eq_left (Int.le_of_lt hdepth)]
    rfl
  | case5 depth segment cs ih =>
    have hparen : ¬ (')' = '(') := by decide
    rw [outsideFrom_closing, LosesNothing, if_neg hparen, if_pos rfl]
    by_cases hkept : 0 < depth ∨ segment = []
    · have hnone : (if depth ≤ 0 then segment.reverse else []) = [] := by
        rcases hkept with hdepth | rfl
        · exact if_neg (Int.not_le.2 hdepth)
        · exact ite_self _
      have hpending : 0 < depth ∨ (!segment.isEmpty) = false := by simpa using hkept
      rw [hnone, List.nil_append, ih, and_iff_right hpending]
      rfl
    · -- the segment is outside but it is not left, so what is left is too short
      obtain ⟨hdepth, hsegment⟩ := not_or.1 hkept
      have hshort := (withoutRemindersAt_sublist (depth - 1) [] cs).length_le
      have hlength := List.length_pos_iff.2 hsegment
      rw [if_pos (Int.not_lt.1 hdepth)]
      refine iff_of_false (fun heq => ?_) fun h => hkept (by simpa using h.1)
      have := congrArg List.length heq
      rw [List.length_append, List.length_reverse] at this
      omega
  | case6 depth segment c cs ho hc ih =>
    rw [outsideFrom_char _ _ _ ho hc, ih, LosesNothing, if_neg ho, if_neg hc]
    rfl

private theorem ClosesOpen.losesNothing {depth : Nat} {cs : List Char} (h : ClosesOpen depth cs)
    (pending : Bool) : LosesNothing depth pending cs := by
  induction cs generalizing depth pending with
  | nil => exact .inl (Int.natCast_nonneg depth)
  | cons c cs ih =>
    rw [ClosesOpen] at h
    rw [LosesNothing]
    split at h
    · next ho =>
      have hnext : max (depth : Int) 0 + 1 = (depth + 1 : Nat) := by omega
      rw [if_pos ho, hnext]
      exact ih h false
    · next ho =>
      rw [if_neg ho]
      split at h
      · next hc =>
        have hnext : (depth : Int) - 1 = (depth - 1 : Nat) := by omega
        rw [if_pos hc, hnext]
        exact ⟨.inl (Int.natCast_pos.2 h.1), ih h.2 false⟩
      · next hc =>
        rw [if_neg hc]
        exact ih h true

/-- What is left of a text is the text outside parentheses exactly if nothing of it is lost. -/
theorem withoutReminders_eq_iff (s : String) :
    withoutReminders s = withoutParenthesized s ↔ LosesNothing 0 false s.toList := by
  have hiff := withoutRemindersAt_eq_iff 0 [] s.toList
  have hstart : outsideFrom 0 [] s.toList = outsideParentheses 0 s.toList := by
    rw [outsideFrom, keptSegment_nil, ite_self, List.nil_append]
    rfl
  rw [hstart] at hiff
  rw [withoutReminders, withoutParenthesized, String.ofList_inj]
  exact hiff

/-- If no parenthesis closes where none is open, what is left is the text outside parentheses. -/
theorem withoutReminders_eq {s : String} (h : ClosesOpen 0 s.toList) :
    withoutReminders s = withoutParenthesized s :=
  (withoutReminders_eq_iff s).2 (h.losesNothing false)

end CardSearch.Text
