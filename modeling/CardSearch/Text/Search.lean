/-!
# Finding text in text

Containment as a contiguous part, splitting at separators, and the characters that a loosely
typed name may leave out. Rules texts are searched without their reminders, which stand in
parentheses: a reminder is left out together with one blank before the opening parenthesis, and a
group that is never closed takes the rest of the text with it.
-/

namespace CardSearch

namespace Text

def contains (part : List Char) : List Char → Bool
  | [] => part.isEmpty
  | c :: text => part.isPrefixOf (c :: text) || contains part text

theorem contains_iff {part text : List Char} : contains part text = true ↔ part <:+: text := by
  induction text with
  | nil => simp [contains, List.infix_nil]
  | cons c text ih =>
    simp only [contains, Bool.or_eq_true, List.isPrefixOf_iff_prefix, ih, List.infix_cons_iff]

/-- The pieces between the characters that satisfy `p`; there is always at least one. -/
def splitAt (p : Char → Bool) : List Char → List (List Char)
  | [] => [[]]
  | c :: cs =>
    if p c then [] :: splitAt p cs
    else match splitAt p cs with
      | [] => [[c]]
      | piece :: pieces => (c :: piece) :: pieces

/-- Punctuation and blanks that are left out when names are compared loosely. -/
def isLoose (c : Char) : Bool :=
  c ∈ ['.', ',', ':', ';', '/', '\\', '\'', '"', ' ', '\t']

def stripLoose (cs : List Char) : List Char := cs.filter (!isLoose ·)

/-- The strokes that part the faces of a typed name. -/
def isStroke (c : Char) : Bool := c == '/' || c == '\\'

/-- What the elements between and within the parts have in common, those of the joined list have. -/
theorem forall_mem_intercalate {α : Type} {p : α → Prop} {between : List α} {parts : List (List α)}
    (hbetween : ∀ a ∈ between, p a) (hparts : ∀ part ∈ parts, ∀ a ∈ part, p a) :
    ∀ a ∈ between.intercalate parts, p a := by
  induction parts with
  | nil => exact List.forall_mem_nil _
  | cons part parts ih =>
    obtain ⟨hpart, hparts⟩ := List.forall_mem_cons.1 hparts
    cases parts with
    | nil => rwa [List.intercalate_singleton]
    | cons part' parts =>
      rw [List.intercalate_cons_cons, List.forall_mem_append, List.forall_mem_append]
      exact ⟨⟨hpart, hbetween⟩, ih hparts⟩

/-- A segment, last character first, without one blank at its end. -/
def dropEndBlank : List Char → List Char
  | ' ' :: segment => segment.reverse
  | segment => segment.reverse

/-- Leaves out reminders, `depth` parentheses deep; `segment` holds the characters since the last
parenthesis, nearest first. A segment is kept when a group opens after it outside all others or
when the text ends in balance. A closing parenthesis too many loses the segment before it and
makes the depth negative, from which the next group starts anew. The depth has no bound; a signed
counter of 32 bits follows it through any text with fewer than 2 ^ 31 parentheses. -/
def withoutRemindersAt (depth : Int) (segment : List Char) : List Char → List Char
  | [] => if depth = 0 then segment.reverse else []
  | '(' :: rest =>
    if depth ≤ 0 then dropEndBlank segment ++ withoutRemindersAt 1 [] rest
    else withoutRemindersAt (depth + 1) [] rest
  | ')' :: rest => withoutRemindersAt (depth - 1) [] rest
  | c :: rest => withoutRemindersAt depth (c :: segment) rest

def withoutReminders (s : String) : String :=
  String.ofList (withoutRemindersAt 0 [] s.toList)

end Text

end CardSearch
