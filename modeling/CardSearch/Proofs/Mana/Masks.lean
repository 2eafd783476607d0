import CardSearch.Mana.Reading
import CardSearch.Query.Encoding
import Mathlib.Data.List.Nodup
import Mathlib.Data.List.Perm.Subperm

/-!
# Keys of mana symbols and their masks

Reading a text counts symbols under few keys: a symbol that names two colours names different
ones, and always in the order of the wheel. The letters of such a key make up a mask that no other
key has, although the order of the letters and the strokes between them are lost in it.
-/

namespace CardSearch

/-- A symbol is read as a group of different marks, a single one if it stands without braces. -/
theorem ManaUnit.exists_marks_of_scan {cs rest : List Char} {unit : ManaUnit}
    (h : scan cs = some (unit, rest)) :
    ∃ marks, distinct marks = true ∧ ofMarks? marks = some unit := by
  rw [scan.eq_def] at h
  split at h
  · split at h
    · next marks rest' _ =>
      split at h
      · next hdistinct =>
        obtain ⟨unit', hunit, heq⟩ := Option.map_eq_some_iff.1 h
        cases heq
        exact ⟨marks, hdistinct, hunit⟩
      · cases h
    · cases h
  · split at h
    · next mark rest' _ =>
      obtain ⟨unit', hunit, heq⟩ := Option.map_eq_some_iff.1 h
      cases heq
      exact ⟨[mark], rfl, hunit⟩
    · cases h

namespace ManaSymbol

/-- Some text has a symbol that is counted under the key. -/
def Readable (key : String) : Prop :=
  ∃ cs unit rest, ManaUnit.scan cs = some (unit, rest) ∧ unit.symbol.key = key

/-- If the symbol names two colours, they differ. -/
def Proper : ManaSymbol → Prop
  | hybrid a b | hybridPhyrexian a b => a ≠ b
  | _ => True

theorem nodup_colors_of_distinct {marks : List ManaMark} (h : ManaUnit.distinct marks = true) :
    (marks.filterMap ManaMark.color?).Nodup := by
  induction marks with
  | nil => exact List.nodup_nil
  | cons m ms ih =>
    simp only [ManaUnit.distinct, Bool.and_eq_true, List.all_eq_true] at h
    obtain ⟨hclash, hms⟩ := h
    cases m with
    | color c =>
      refine List.nodup_cons.2 ⟨fun hc => ?_, ih hms⟩
      obtain ⟨m, hm, hcolor⟩ := List.mem_filterMap.1 hc
      cases m <;> cases hcolor
      simpa [ManaMark.clashes] using hclash _ hm
    | number _ | colorless | chosen | snow | phyrexian => exact ih hms

theorem proper_of_ofMarks? {marks : List ManaMark} {unit : ManaUnit}
    (hdistinct : ManaUnit.distinct marks = true) (h : ManaUnit.ofMarks? marks = some unit) :
    unit.symbol.Proper := by
  have hnodup := nodup_colors_of_distinct hdistinct
  unfold ManaUnit.ofMarks? at h
  split at h <;> simp only [Option.ite_none_right_eq_some, Option.some.injEq, reduceCtorEq] at h
  all_goals first
    | (subst h; trivial)
    | (obtain ⟨-, rfl⟩ := h; trivial)
    | (subst h; simp_all [Proper])

private theorem proper_of_scan {cs rest : List Char} {unit : ManaUnit}
    (h : ManaUnit.scan cs = some (unit, rest)) : unit.symbol.Proper := by
  obtain ⟨marks, hdistinct, hunit⟩ := ManaUnit.exists_marks_of_scan h
  exact proper_of_ofMarks? hdistinct hunit

def colorPairs : List (Color × Color) :=
  (Color.all.flatMap fun a => Color.all.map fun b => (a, b)).filter fun p =>
    p.1 ≠ p.2 ∧ p.1.ordered p.2 = p

def listed : List ManaSymbol :=
  [generic, chosen, snow, colorless] ++
    [colored, twoOr, colorlessOr, phyrexian].flatMap Color.all.map ++
    [hybrid, hybridPhyrexian].flatMap fun pair => colorPairs.map fun p => pair p.1 p.2

private theorem exists_listed {s : ManaSymbol} (h : s.Proper) : ∃ t ∈ listed, t.key = s.key := by
  have hchars : ∃ t ∈ listed, t.keyChars = s.keyChars := by
    cases s with
    | generic | chosen | snow | colorless => decide
    | colored c | twoOr c | colorlessOr c | phyrexian c => cases c <;> decide
    | hybrid a b | hybridPhyrexian a b =>
      have hne : a ≠ b := h
      revert hne
      cases a <;> cases b <;> decide
  obtain ⟨t, ht, heq⟩ := hchars
  exact ⟨t, ht, congrArg String.ofList heq⟩

theorem Readable.exists_listed {key : String} (h : Readable key) : ∃ t ∈ listed, t.key = key := by
  obtain ⟨cs, unit, rest, hscan, rfl⟩ := h
  exact ManaSymbol.exists_listed (proper_of_scan hscan)

private theorem readable_colored (c : Color) : Readable (colored c).key := by
  cases c
  case white => exact ⟨['W'], _, _, rfl, rfl⟩
  case blue => exact ⟨['U'], _, _, rfl, rfl⟩
  case black => exact ⟨['B'], _, _, rfl, rfl⟩
  case red => exact ⟨['R'], _, _, rfl, rfl⟩
  case green => exact ⟨['G'], _, _, rfl, rfl⟩

end ManaSymbol

/-- Each of the symbols at the start of a text is read somewhere. -/
theorem ManaUnit.exists_scan_of_mem {cs : List Char} {unit : ManaUnit}
    (h : unit ∈ (scanAll cs).1) : ∃ cs' rest, scan cs' = some (unit, rest) := by
  fun_induction scanAll cs with
  | case1 => cases h
  | case2 cs first rest hscan _ tail ih =>
    rcases List.mem_cons.1 h with rfl | h
    · exact ⟨cs, rest, hscan⟩
    · exact ih h

namespace Encoding

open ManaSymbol

private theorem symbolMask_key (s : ManaSymbol) :
    symbolMask s.key = s.keyChars.foldl (fun mask c => mask ||| letterBit c) 0 := by
  rw [symbolMask, key, String.toList_ofList]

private theorem nodup_symbolMask_listed : (listed.map fun s => symbolMask s.key).Nodup := by
  simp only [symbolMask_key]
  decide

theorem symbolMask_injective {key key' : String} (h : Readable key) (h' : Readable key')
    (heq : symbolMask key = symbolMask key') : key = key' := by
  obtain ⟨s, hs, rfl⟩ := h.exists_listed
  obtain ⟨t, ht, rfl⟩ := h'.exists_listed
  rw [List.inj_on_of_nodup_map nodup_symbolMask_listed hs ht heq]

end Encoding

namespace ManaCost

theorem eq_iff_counts_eq {cost cost' : ManaCost} : cost = cost' ↔ cost.counts = cost'.counts := by
  refine ⟨congrArg counts, fun h => ?_⟩
  cases cost
  cases cost'
  cases h
  rfl

def Readable (cost : ManaCost) : Prop := ∀ e ∈ cost.counts, ManaSymbol.Readable e.1

private theorem Readable.add {cost : ManaCost} (h : cost.Readable) {key : String}
    (hkey : ManaSymbol.Readable key) (amount : UInt32) : (cost.add key amount).Readable := by
  intro e he
  rcases mem_addTo he with he | ⟨heq, -⟩
  · exact h e he
  · exact heq ▸ hkey

theorem readable_ofList {entries : List (String × UInt32)}
    (h : ∀ e ∈ entries, ManaSymbol.Readable e.1) : (ofList entries).Readable :=
  List.foldlRecOn entries _ (motive := Readable) (List.forall_mem_nil _) fun _ hcost e he =>
    hcost.add (h e he) e.2

/-- What a text costs counts symbols that can be read. -/
theorem readable_scan (cs : List Char) : (scan cs).1.Readable := by
  refine readable_ofList fun e he => ?_
  obtain ⟨unit, hunit, rfl⟩ := List.mem_map.1 he
  obtain ⟨cs', rest, hscan⟩ := ManaUnit.exists_scan_of_mem hunit
  exact ⟨cs', unit, rest, hscan, rfl⟩

theorem readable_ofColors (colors : List Color) : (ofColors colors).Readable := by
  refine readable_ofList fun e he => ?_
  obtain ⟨c, -, rfl⟩ := List.mem_map.1 he
  exact ManaSymbol.readable_colored c

theorem nodup_keys (cost : ManaCost) : (cost.counts.map (·.1)).Nodup :=
  List.pairwise_map.2 (cost.ascending.imp fun {e e'} hlt heq => by
    rw [heq] at hlt
    exact String.lt_irrefl _ hlt)

/-- A readable cost has few enough symbols for one byte to count them. -/
theorem Readable.symbolCount_lt {cost : ManaCost} (h : cost.Readable) : cost.symbolCount < 256 := by
  have hsubset : cost.counts.map (·.1) ⊆ ManaSymbol.listed.map ManaSymbol.key := by
    intro key hkey
    obtain ⟨e, he, rfl⟩ := List.mem_map.1 hkey
    obtain ⟨s, hs, heq⟩ := (h e he).exists_listed
    exact List.mem_map.2 ⟨s, hs, heq⟩
  calc cost.symbolCount = (cost.counts.map (·.1)).length := (List.length_map ..).symm
    _ ≤ (ManaSymbol.listed.map ManaSymbol.key).length := (cost.nodup_keys.subperm hsubset).length_le
    _ < 256 := by rw [List.length_map]; decide

end ManaCost

end CardSearch
