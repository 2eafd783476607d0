import CardSearch.Json.Form

/-!
# Objects spelled by their tokens

Characters spell tokens if a text that goes on in any way behind the characters goes on with its
tokens behind these. Spellings can be put side by side, so a whole text is taken apart by its pieces.
The tokens of an object of texts are put together to the names and texts in the order in which they
stand, and nothing is left over.
-/

namespace CardSearch.Form

/-- The characters stand for the tokens, whatever follows them. There are no more tokens than
characters. -/
structure Spells (cs : List Char) (ts : List Token) : Prop where
  length_le : ts.length ≤ cs.length
  tokens?_append (n : Nat) (read : List Token) (rest : List Char) :
    tokens? (n + ts.length) read (cs ++ rest) = tokens? n (ts.reverse ++ read) rest

variable {cs ds : List Char} {ts us : List Token}

private theorem spells_nil : Spells [] [] := ⟨Nat.le_refl 0, fun _ _ _ => rfl⟩

theorem Spells.append (h : Spells cs ts) (h' : Spells ds us) : Spells (cs ++ ds) (ts ++ us) where
  length_le := by
    rw [List.length_append, List.length_append]
    exact Nat.add_le_add h.length_le h'.length_le
  tokens?_append n read rest := by
    have hlength : n + (ts ++ us).length = n + us.length + ts.length := by
      rw [List.length_append]
      omega
    rw [hlength, List.append_assoc, h.tokens?_append, h'.tokens?_append, List.reverse_append,
      List.append_assoc]

theorem spells_mark {c : Char} (hc : isMark c = true) : Spells [c] [.mark c] where
  length_le := Nat.le_refl 1
  tokens?_append n read rest := by
    have hblank : isBlank c = false := by
      simp only [isMark, List.mem_cons, List.not_mem_nil, or_false, decide_eq_true_eq] at hc
      rcases hc with rfl | rfl | rfl | rfl | rfl | rfl <;> rfl
    rw [List.cons_append, List.nil_append, List.length_singleton, tokens?, hblank, hc]
    rfl

/-- Characters between quotes stand for the pieces as which they are read. -/
theorem spells_text {pieces : List TextPiece}
    (h : ∀ rest, scanText? [] (cs ++ '"' :: rest) = some (pieces, rest)) :
    Spells ('"' :: cs ++ ['"']) [.scalar (.text pieces)] where
  length_le := by simp
  tokens?_append n read rest := by
    have htext : '"' :: cs ++ ['"'] ++ rest = '"' :: (cs ++ '"' :: rest) := by simp
    have hscalar : scalar? ('"' :: (cs ++ '"' :: rest)) = some (.text pieces, rest) :=
      congrArg (Option.map _) (h rest)
    rw [htext, List.length_singleton, tokens?, hscalar]
    rfl

theorem spells_intercalate {α : Type} {c : Char} (hc : isMark c = true) {chars : α → List Char}
    {tokens : α → List Token} (h : ∀ a, Spells (chars a) (tokens a)) (as : List α) :
    Spells ([c].intercalate (as.map chars)) ([.mark c].intercalate (as.map tokens)) := by
  induction as with
  | nil => exact spells_nil
  | cons a as ih =>
    cases as with
    | nil =>
      simp only [List.map_singleton, List.intercalate_singleton]
      exact h a
    | cons b as =>
      simp only [List.map_cons, List.intercalate_cons_cons]
      exact ((h a).append (spells_mark hc)).append ih

/-- A text with a line end is what its tokens are put together to. -/
theorem parse?_line (h : Spells cs ts) : parse? (cs ++ ['\n']) = Reader.run? {} ts := by
  have hlength : ∃ k, (cs ++ ['\n']).length = k + 1 + ts.length := by
    refine ⟨cs.length - ts.length, ?_⟩
    have hle := h.length_le
    rw [List.length_append, List.length_singleton]
    omega
  obtain ⟨k, hk⟩ := hlength
  have htokens : tokens? (k + 1 + ts.length) [] (cs ++ ['\n']) = some ts := by
    rw [h.tokens?_append, List.append_nil, tokens?, isBlank]
    simp [tokens?]
  rw [parse?, hk, htokens]

def memberTokens (m : List TextPiece × List TextPiece) : List Token :=
  [.scalar (.text m.1), .mark ':', .scalar (.text m.2)]

def objectTokens (ms : List (List TextPiece × List TextPiece)) : List Token :=
  .mark '\x7b' :: [.mark ','].intercalate (ms.map memberTokens) ++ [.mark '\x7d']

def ofTexts (ms : List (List TextPiece × List TextPiece)) : Form :=
  .object (ms.map fun m => (m.1, .text m.2))

theorem run?_member {e : Expected} (he : e = .name ∨ e = .nameOrEnd)
    (read : List (List TextPiece × Form)) (before : List TextPiece) (outer : List Bracket)
    (m : List TextPiece × List TextPiece) (ts : List Token) :
    Reader.run? ⟨e, .object read before :: outer⟩ (memberTokens m ++ ts) =
      Reader.run? ⟨.separator, .object ((m.1, .text m.2) :: read) m.1 :: outer⟩ ts := by
  rcases he with rfl | rfl <;> rfl

private theorem run?_members {e : Expected} (he : e = .name ∨ e = .nameOrEnd)
    (read : List (List TextPiece × Form)) (before : List TextPiece)
    (m : List TextPiece × List TextPiece) (ms : List (List TextPiece × List TextPiece)) :
    Reader.run? ⟨e, [.object read before]⟩
        ([.mark ','].intercalate ((m :: ms).map memberTokens) ++ [.mark '\x7d']) =
      some (.object (read.reverse ++ (m :: ms).map fun m => (m.1, .text m.2))) := by
  induction ms generalizing e read before m with
  | nil =>
    rw [List.map_singleton, List.intercalate_singleton, run?_member he]
    exact congrArg (fun members => some (Form.object members)) (List.reverse_cons ..)
  | cons m' ms ih =>
    rw [List.map_cons, List.map_cons, List.intercalate_cons_cons, List.append_assoc,
      List.append_assoc, run?_member he, ← List.map_cons]
    refine (ih (.inl rfl) ((m.1, .text m.2) :: read) m.1 m').trans ?_
    rw [List.reverse_cons, List.append_assoc]
    rfl

theorem run?_objectTokens (ms : List (List TextPiece × List TextPiece)) :
    Reader.run? {} (objectTokens ms) = some (ofTexts ms) := by
  cases ms with
  | nil => rfl
  | cons m ms => exact run?_members (.inr rfl) [] [] m ms

/-- The names and texts of an object all of whose members are texts, in the order in which they
stand. -/
def textMembers? : Form → Option (List (String × String))
  | object members => members.mapM fun
    | (name, text pieces) => do return (← stringOf? name, ← stringOf? pieces)
    | _ => none
  | _ => none

theorem textMembers?_ofTexts {α : Type} (members : List α)
    (pieces : α → List TextPiece × List TextPiece) (texts : α → String × String)
    (hname : ∀ a, stringOf? (pieces a).1 = some (texts a).1)
    (htext : ∀ a, stringOf? (pieces a).2 = some (texts a).2) :
    textMembers? (ofTexts (members.map pieces)) = some (members.map texts) := by
  rw [ofTexts, textMembers?, List.map_map]
  induction members with
  | nil => rfl
  | cons a members ih =>
    rw [List.map_cons, List.mapM_cons, ih]
    simp only [Function.comp, hname, htext]
    rfl

end CardSearch.Form
