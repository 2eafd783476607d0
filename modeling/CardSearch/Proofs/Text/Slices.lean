import CardSearch.Proofs.Text.Reminders
import Mathlib.Data.List.Forall2

/-!
# The slices that are left of a text

No character is copied alone. The place behind the last parenthesis that closed outside all others is
remembered, and the bytes from there on are copied as one slice where the next parenthesis opens, or
where the text ends in balance. The place is a number of bytes, moved by closing parentheses only, so
nothing but the order of the parentheses keeps it from running ahead of where a slice stops.
-/

namespace CardSearch.Text

/-- The bytes of a text from one place up to another. -/
structure Slice where
  start : Nat
  stop : Nat
  deriving DecidableEq, Repr

/-- How many bytes characters take. -/
def byteLength : List Char → Nat
  | [] => 0
  | c :: cs => c.utf8Size + byteLength cs

/-- A slice cuts a piece out of a text: it starts where a character starts, and stops where the piece
does. -/
def Slice.Cuts (text : List Char) (r : Slice) (piece : List Char) : Prop :=
  ∃ before after, text = before ++ piece ++ after ∧ r.start = byteLength before ∧
    r.stop = byteLength before + byteLength piece

/-- The slices that are copied, `depth` parentheses deep behind the characters `before`, nearest
first; `start` is the place that is remembered. As in `withoutRemindersAt` the depth has no bound. -/
def slicesAt (depth : Int) (start : Nat) (before : List Char) : List Char → List Slice
  | [] => if depth = 0 then [⟨start, byteLength before⟩] else []
  | '(' :: rest =>
    if depth ≤ 0 then
      ⟨start, if before.head? = some ' ' then byteLength before - 1 else byteLength before⟩ ::
        slicesAt 1 start ('(' :: before) rest
    else slicesAt (depth + 1) start ('(' :: before) rest
  | ')' :: rest =>
    slicesAt (depth - 1) (if depth - 1 ≤ 0 then byteLength before + 1 else start) (')' :: before) rest
  | c :: rest => slicesAt depth start (c :: before) rest

/-- The slices of a rules text that are copied. -/
def slices (s : String) : List Slice := slicesAt 0 0 [] s.toList

theorem slicesAt_char (depth : Int) (start : Nat) (before rest : List Char) {c : Char} (ho : c ≠ '(')
    (hc : c ≠ ')') :
    slicesAt depth start before (c :: rest) = slicesAt depth start (c :: before) rest := by
  rw [slicesAt]
  · exact ho
  · exact hc

@[simp] theorem byteLength_nil : byteLength [] = 0 := rfl

@[simp] theorem byteLength_cons (c : Char) (cs : List Char) :
    byteLength (c :: cs) = c.utf8Size + byteLength cs := rfl

@[simp] theorem byteLength_append (cs ds : List Char) :
    byteLength (cs ++ ds) = byteLength cs + byteLength ds := by
  induction cs with
  | nil => simp
  | cons c cs ih => rw [List.cons_append, byteLength_cons, byteLength_cons, ih, Nat.add_assoc]

@[simp] theorem byteLength_reverse (cs : List Char) : byteLength cs.reverse = byteLength cs := by
  induction cs with
  | nil => rfl
  | cons c cs ih =>
    rw [List.reverse_cons, byteLength_append, ih, byteLength_cons, byteLength_cons, byteLength_nil,
      Nat.add_zero, Nat.add_comm]

theorem Slice.Cuts.start_le_stop {text piece : List Char} {r : Slice} (h : r.Cuts text piece) :
    r.start ≤ r.stop := by
  obtain ⟨before, after, -, hstart, hstop⟩ := h
  omega

/-- The place that is remembered stands right before the segment, and a segment without characters
stands behind a parenthesis or at the start. -/
structure Remembers (start : Nat) (segment before : List Char) : Prop where
  start_eq : ∃ front, before = segment ++ front ∧ start = byteLength front
  head?_ne : segment = [] → before.head? ≠ some ' '

variable {start : Nat} {segment before : List Char}

private theorem Remembers.read (h : Remembers start segment before) (c : Char) :
    Remembers start (c :: segment) (c :: before) where
  start_eq := by
    obtain ⟨front, rfl, hstart⟩ := h.start_eq
    exact ⟨front, rfl, hstart⟩
  head?_ne := nofun

private theorem remembers_closing (before : List Char) :
    Remembers (byteLength before + 1) [] (')' :: before) where
  start_eq := ⟨')' :: before, rfl, Nat.add_comm ..⟩
  head?_ne := by simp

/-- The whole segment is cut out by a slice from the place that is remembered to the present one. -/
theorem Remembers.cuts (h : Remembers start segment before) (rest : List Char) :
    Slice.Cuts (before.reverse ++ rest) ⟨start, byteLength before⟩ segment.reverse := by
  obtain ⟨front, rfl, rfl⟩ := h.start_eq
  refine ⟨front.reverse, rest, by rw [List.reverse_append], by simp, ?_⟩
  simp [Nat.add_comm]

theorem Remembers.cuts_dropEndBlank (h : Remembers start segment before) (rest : List Char) :
    Slice.Cuts (before.reverse ++ rest)
      ⟨start, if before.head? = some ' ' then byteLength before - 1 else byteLength before⟩
      (dropEndBlank segment) := by
  obtain ⟨front, hbefore, hstart⟩ := h.start_eq
  by_cases hblank : before.head? = some ' '
  · rw [if_pos hblank]
    cases segment with
    | nil => exact absurd hblank (h.head?_ne rfl)
    | cons c segment =>
      obtain rfl : c = ' ' := Option.some.inj ((congrArg List.head? hbefore).symm.trans hblank)
      have hsize : ' '.utf8Size = 1 := rfl
      refine ⟨front.reverse, ' ' :: rest, ?_, ?_, ?_⟩
      · simp [hbefore, dropEndBlank]
      · rw [hstart, byteLength_reverse]
      · simp only [hbefore, dropEndBlank, List.cons_append, byteLength_cons, byteLength_append,
          byteLength_reverse]
        omega
  · have hwhole : dropEndBlank segment = segment.reverse := by
      cases segment with
      | nil => rfl
      | cons c segment =>
        rw [dropEndBlank]
        rintro tail heq
        exact hblank (by rw [hbefore, heq]; rfl)
    rw [if_neg hblank, hwhole]
    exact h.cuts rest

/-- The slices cut pieces out of the text, and what is left is these pieces in turn. -/
theorem exists_pieces (depth : Int) (segment cs : List Char)
    (h : depth ≤ 0 → Remembers start segment before) :
    ∃ pieces,
      List.Forall₂ (Slice.Cuts (before.reverse ++ cs)) (slicesAt depth start before cs) pieces ∧
        withoutRemindersAt depth segment cs = pieces.flatten := by
  fun_induction withoutRemindersAt depth segment cs generalizing start before with
  | case1 segment =>
    rw [slicesAt, if_pos rfl]
    have hcuts := (h (Int.le_refl 0)).cuts []
    exact ⟨[segment.reverse], .cons hcuts .nil, (List.flatten_singleton ..).symm⟩
  | case2 depth segment hdepth =>
    rw [slicesAt, if_neg hdepth]
    exact ⟨[], .nil, rfl⟩
  | case3 depth segment cs hdepth ih =>
    rw [slicesAt, if_pos hdepth]
    obtain ⟨pieces, hpieces, hleft⟩ := @ih start ('(' :: before) (by omega)
    rw [List.reverse_cons, List.append_assoc] at hpieces
    have hcuts := (h hdepth).cuts_dropEndBlank ('(' :: cs)
    exact ⟨dropEndBlank segment :: pieces, .cons hcuts hpieces, by rw [hleft, List.flatten_cons]⟩
  | case4 depth segment cs hdepth ih =>
    rw [slicesAt, if_neg hdepth]
    have hrest := @ih start ('(' :: before) (by omega)
    rwa [List.reverse_cons, List.append_assoc] at hrest
  | case5 depth segment cs ih =>
    rw [slicesAt]
    have hrest := @ih (if depth - 1 ≤ 0 then byteLength before + 1 else start) (')' :: before)
      fun hdepth => by
        rw [if_pos hdepth]
        exact remembers_closing before
    rwa [List.reverse_cons, List.append_assoc] at hrest
  | case6 depth segment c cs ho hc ih =>
    rw [slicesAt_char _ _ _ _ ho hc]
    have hrest := @ih start (c :: before) fun hdepth => (h hdepth).read c
    rwa [List.reverse_cons, List.append_assoc] at hrest

/-- What is left of a text is the text outside parentheses exactly if no parenthesis closes where none
is open right behind such text, and none does before the end with such text behind it. No slice that
is copied stops before it starts: the slices cut pieces of whole characters out of the text, and what
is left is these pieces in turn. -/
theorem withoutReminders_copies (s : String) :
    (withoutReminders s = withoutParenthesized s ↔ LosesNothing 0 false s.toList) ∧
      (∀ r ∈ slices s, r.start ≤ r.stop) ∧
      ∃ pieces, List.Forall₂ (Slice.Cuts s.toList) (slices s) pieces ∧
        withoutReminders s = String.ofList pieces.flatten := by
  have hstart : Remembers 0 [] [] := ⟨⟨[], rfl, rfl⟩, nofun⟩
  obtain ⟨pieces, hpieces, hleft⟩ := exists_pieces 0 [] s.toList fun _ => hstart
  refine ⟨withoutReminders_eq_iff s, fun r hr => ?_, pieces, hpieces, congrArg _ hleft⟩
  obtain ⟨i, hi, rfl⟩ := List.getElem_of_mem hr
  have hlt : i < pieces.length := hpieces.length_eq ▸ hi
  exact (hpieces.get hi hlt).start_le_stop

/-- Behind a parenthesis that closes none, the text before it and the text after it are lost. -/
example : withoutReminders "Draw a card) now" = "" ∧
    withoutParenthesized "Draw a card) now" = "Draw a card now" := by decide

end CardSearch.Text
