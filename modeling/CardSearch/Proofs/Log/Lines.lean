import CardSearch.Log
import CardSearch.Proofs.Json.Spelling
import CardSearch.Text.Search
import Mathlib.Data.List.Nodup

/-!
# Log lines as objects

A line of the log is an object of texts whatever the event, the names and the values of its fields
are made of. Characters that could end a text or a line are escaped, and a reader of the line gets
back each character from its escape. So a line holds nothing but the event, the severity and the
fields of its entry, and it ends nowhere but at its end.
-/

namespace CardSearch.LogEntry

open Form

def isNumbered (c : Char) : Bool := isControl c && c ≠ '\n' && c ≠ '\r' && c ≠ '\t'

def pieceOf (c : Char) : TextPiece := if isNumbered c then .unit c.toNat else .char c

def piecesOf (s : String) : List TextPiece := s.toList.map pieceOf

theorem toNat_lt_of_isControl {c : Char} (hc : isControl c = true) : c.toNat < 160 := by
  simp only [isControl, Bool.or_eq_true, Bool.and_eq_true, decide_eq_true_eq] at hc
  omega

private theorem isControl_digitChar : ∀ n < 16, isControl (Nat.digitChar n) = false := by decide

private theorem hexValue?_digitChar : ∀ n < 16, hexValue? (Nat.digitChar n) = some n := by decide

/-- A number below 256 is read back from its two digits. -/
theorem unit?_digits {n : Nat} (hn : n < 256) :
    unit? '0' '0' (Nat.digitChar (n / 16)) (Nat.digitChar (n % 16)) = some (.unit n) := by
  have hhigh : hexValue? (Nat.digitChar (n / 16)) = some (n / 16) := hexValue?_digitChar _ (by omega)
  have hlow : hexValue? (Nat.digitChar (n % 16)) = some (n % 16) := hexValue?_digitChar _ (by omega)
  have hzero : hexValue? '0' = some 0 := rfl
  have hvalue : (0 * 16 + 0) * 256 + n / 16 * 16 + n % 16 = n := by omega
  simp only [unit?, hzero, hhigh, hlow, Option.bind_eq_bind, Option.bind_some, hvalue]
  rfl

theorem scanText?_escapedChar (read : List TextPiece) (c : Char) (rest : List Char) :
    scanText? read (escapedChar c ++ rest) = scanText? (pieceOf c :: read) rest := by
  by_cases hnamed : c = '"' ∨ c = '\\' ∨ c = '\n' ∨ c = '\r' ∨ c = '\t'
  · rcases hnamed with rfl | rfl | rfl | rfl | rfl <;> rfl
  · simp only [not_or] at hnamed
    obtain ⟨hquote, hslash, hline, hreturn, htab⟩ := hnamed
    have hescaped : escapedChar c = if isControl c then
        ['\\', 'u', '0', '0', Nat.digitChar (c.toNat / 16), Nat.digitChar (c.toNat % 16)]
        else [c] := by
      rw [escapedChar] <;> assumption
    have hnumbered : isNumbered c = isControl c := by
      simp [isNumbered, hline, hreturn, htab]
    rw [hescaped, pieceOf, hnumbered]
    cases hc : isControl c with
    | true =>
      have hlt := toNat_lt_of_isControl hc
      rw [if_pos rfl, if_pos rfl]
      simp only [List.cons_append, List.nil_append]
      rw [scanText?, unit?_digits (by omega)]
    | false =>
      have hplain : ¬ (c.toNat < 32 ∨ c = '\\') := by
        simp only [isControl, Bool.or_eq_false_iff, decide_eq_false_iff_not] at hc
        simp [hc.1, hslash]
      rw [if_neg (by decide), if_neg (by decide), List.cons_append, List.nil_append, scanText?,
        if_neg hplain]
      · exact hquote
      · exact fun _ _ _ _ _ heq => absurd heq hslash
      · exact fun _ _ heq => absurd heq hslash

private theorem scanText?_escaped (read : List TextPiece) (cs rest : List Char) :
    scanText? read (cs.flatMap escapedChar ++ '"' :: rest) =
      some (read.reverse ++ cs.map pieceOf, rest) := by
  induction cs generalizing read with
  | nil =>
    rw [List.map_nil, List.append_nil]
    rfl
  | cons c cs ih =>
    rw [List.flatMap_cons, List.append_assoc, scanText?_escapedChar, ih, List.reverse_cons,
      List.append_assoc, List.map_cons, List.singleton_append]

private theorem spells_quoted (s : String) : Spells (quoted s) [.scalar (.text (piecesOf s))] :=
  spells_text fun rest => scanText?_escaped [] s.toList rest

/-- A number below the surrogates stands for its character. -/
theorem textOf?_unit {n : Nat} (hn : n < 0xd800) (rest : List TextPiece) :
    textOf? (.unit n :: rest) = (textOf? rest).map (Char.ofNat n :: ·) := by
  have hhigh : ¬ (0xd800 ≤ n ∧ n < 0xdc00) := by omega
  have hlow : ¬ (0xdc00 ≤ n ∧ n < 0xe000) := by omega
  have hneither : ¬ (0xd800 ≤ n ∧ n < 0xe000) := by omega
  match rest with
  | .unit low :: rest => rw [textOf?, if_neg hhigh, if_neg hlow]
  | [] | .char _ :: _ | .stray _ :: _ => simp only [textOf?, if_neg hneither]

private theorem textOf?_pieceOf (c : Char) (rest : List TextPiece) :
    textOf? (pieceOf c :: rest) = (textOf? rest).map (c :: ·) := by
  rw [pieceOf]
  split
  next hnumbered =>
    simp only [isNumbered, Bool.and_eq_true] at hnumbered
    have hlt := toNat_lt_of_isControl hnumbered.1.1.1
    rw [textOf?_unit (by omega), Char.ofNat_toNat]
  next => rw [textOf?]

private theorem stringOf?_piecesOf (s : String) : stringOf? (piecesOf s) = some s := by
  have htext (cs : List Char) : textOf? (cs.map pieceOf) = some cs := by
    induction cs with
    | nil => rfl
    | cons c cs ih => rw [List.map_cons, textOf?_pieceOf, ih, Option.map_some]
  rw [stringOf?, piecesOf, htext, Option.map_some, String.ofList_toList]

private theorem isControl_of_mem_escapedChar {c d : Char} (hd : d ∈ escapedChar c) :
    isControl d = false := by
  revert hd
  fun_cases escapedChar c
  case case6 hc =>
    have hlt := toNat_lt_of_isControl hc
    have hhigh := isControl_digitChar (c.toNat / 16) (by omega)
    have hlow := isControl_digitChar (c.toNat % 16) (by omega)
    simp only [List.mem_cons, List.not_mem_nil, or_false]
    rintro (rfl | rfl | rfl | rfl | rfl | rfl)
    all_goals first
      | rfl
      | assumption
  case case7 hc =>
    rw [List.mem_singleton]
    rintro rfl
    simpa using hc
  all_goals
    simp only [List.mem_cons, List.not_mem_nil, or_false]
    rintro (rfl | rfl) <;> rfl

private theorem isControl_of_mem_quoted {s : String} : ∀ c ∈ quoted s, isControl c = false := by
  rw [quoted, List.forall_mem_append, List.forall_mem_cons, List.forall_mem_singleton]
  refine ⟨⟨rfl, fun d hd => ?_⟩, rfl⟩
  obtain ⟨c, -, hd⟩ := List.mem_flatMap.1 hd
  exact isControl_of_mem_escapedChar hd

variable (entry : LogEntry)

/-- A line has no control characters before its end. -/
theorem isControl_of_mem_lineChars : ∀ c ∈ entry.lineChars, isControl c = false := by
  have hmembers : ∀ part ∈ entry.members.map fun m => quoted m.1 ++ ':' :: quoted m.2,
      ∀ c ∈ part, isControl c = false := by
    rw [List.forall_mem_map]
    intro m _
    rw [List.forall_mem_append, List.forall_mem_cons]
    exact ⟨isControl_of_mem_quoted, rfl, isControl_of_mem_quoted⟩
  rw [lineChars, List.forall_mem_append, List.forall_mem_cons, List.forall_mem_singleton]
  exact ⟨⟨rfl, Text.forall_mem_intercalate (List.forall_mem_singleton.2 rfl) hmembers⟩, rfl⟩

theorem spells_lineChars : Spells entry.lineChars
    (objectTokens (entry.members.map fun m => (piecesOf m.1, piecesOf m.2))) := by
  have hmember (m : String × String) : Spells (quoted m.1 ++ ':' :: quoted m.2)
      (memberTokens (piecesOf m.1, piecesOf m.2)) :=
    (spells_quoted m.1).append ((spells_mark rfl).append (spells_quoted m.2))
  have hmembers := spells_intercalate (c := ',') rfl hmember entry.members
  rw [objectTokens, List.map_map]
  exact ((spells_mark rfl).append hmembers).append (spells_mark rfl)

private theorem parse?_render : Form.parse? entry.render.toList =
    some (ofTexts (entry.members.map fun m => (piecesOf m.1, piecesOf m.2))) := by
  rw [render, String.toList_ofList, parse?_line entry.spells_lineChars, run?_objectTokens]

variable {entry}

theorem pairwise_sortedFields (entry : LogEntry) : entry.sortedFields.Pairwise (·.1 ≤ ·.1) := by
  have hsorted : entry.sortedFields.Pairwise fun a b => decide (a.1 ≤ b.1) = true :=
    List.pairwise_mergeSort
      (fun a b c hab hbc => by simpa using String.le_trans (by simpa using hab) (by simpa using hbc))
      (fun a b => by simpa using String.le_total a.1 b.1) entry.fields
  exact hsorted.imp of_decide_eq_true

/-- Fields of different names can be given in any order. -/
theorem sortedFields_eq_of_perm {fields : List (String × String)}
    (hnames : (entry.fields.map Prod.fst).Nodup) (hperm : fields.Perm entry.fields) :
    { entry with fields }.sortedFields = entry.sortedFields := by
  have hfields : { entry with fields }.sortedFields.Perm fields := List.mergeSort_perm ..
  have hentry : entry.sortedFields.Perm entry.fields := List.mergeSort_perm ..
  refine List.Perm.eq_of_pairwise (fun a b ha hb hab hba => ?_) (pairwise_sortedFields _)
    (pairwise_sortedFields entry) ((hfields.trans hperm).trans hentry.symm)
  exact List.inj_on_of_nodup_map hnames (hperm.subset (hfields.subset ha)) (hentry.subset hb)
    (String.le_antisymm hab hba)

/-- A line ends at its only line end, whatever its entry holds, and it is an object whose members are
the event, the severity and then the fields in ascending order of their names, with just the names and
values that were given. Fields of different names make the same line in whatever order they are given. -/
theorem render_reads_back (entry : LogEntry) :
    (∃ line, entry.render.toList = line ++ ['\n'] ∧ '\n' ∉ line) ∧
      (∃ form sorted, Form.parse? entry.render.toList = some form ∧
        form.textMembers? =
          some (("event", entry.event) :: ("severity", entry.severity.label) :: sorted) ∧
        sorted.Perm entry.fields ∧ sorted.Pairwise (·.1 ≤ ·.1)) ∧
      ∀ fields : List (String × String), (entry.fields.map Prod.fst).Nodup →
        fields.Perm entry.fields → { entry with fields }.render = entry.render := by
  refine ⟨⟨entry.lineChars, String.toList_ofList, fun hline => ?_⟩,
    ⟨_, entry.sortedFields, entry.parse?_render, ?_, List.mergeSort_perm ..,
      pairwise_sortedFields entry⟩,
    fun fields hnames hperm => ?_⟩
  · exact absurd (entry.isControl_of_mem_lineChars _ hline) (by decide)
  · have htexts := textMembers?_ofTexts entry.members (fun m => (piecesOf m.1, piecesOf m.2)) id
      (fun m => stringOf?_piecesOf m.1) fun m => stringOf?_piecesOf m.2
    rwa [List.map_id] at htexts
  · have hsorted := sortedFields_eq_of_perm hnames hperm
    rw [render, render, lineChars, lineChars, members, members, hsorted]

/-- A value that spells the end of its line and a member of the next one. -/
theorem render_reads_back_forged :
    let fields := [("query", "fire\"\x7d\n\x7b\"event\":\"QUERY_FAILED"), ("id", "\u0085\\")]
    let entry : LogEntry := ⟨.info, "QUERY_EXECUTE_BEGIN", fields⟩
    (fields.map Prod.fst).Nodup ∧ fields.reverse.Perm fields ∧
      { entry with fields := fields.reverse }.render = entry.render := by
  intro fields entry
  have hnames : (fields.map Prod.fst).Nodup := by decide
  have hperm : fields.reverse.Perm fields := List.reverse_perm fields
  exact ⟨hnames, hperm, (render_reads_back entry).2.2 fields.reverse hnames hperm⟩

end CardSearch.LogEntry
