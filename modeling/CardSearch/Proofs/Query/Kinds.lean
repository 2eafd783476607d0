import CardSearch.Matching
import CardSearch.Proofs.Catalog.Columns
import CardSearch.Proofs.Query.Typed

/-!
# The kinds of what is asked for

A leaf fits when it asks of its property what data of the kind of that property can answer. All
leaves of a query that is typed fit.
-/

namespace CardSearch

def Literal.dataKind : Literal → DataKind
  | bool _ => .bool
  | int _ => .number
  | text _ => .text
  | date _ => .date
  | cost _ => .cost
  | rarity _ => .rarity

namespace Leaf

/-- A leaf asks what data of the kind of its property can answer. The number of colors may be
compared too. -/
def Fits : Leaf → Prop
  | compare _ p value => value.dataKind = p.kind ∨ p ∈ [.colors, .identity] ∧ value.dataKind = .number
  | contains p _ => p.kind = .text
  | parity _ p => p.kind = .number
  | range p first _ last _ => first.dataKind = p.kind ∧ last.dataKind = p.kind ∧ p.kind ≠ .cost

theorem Typed.fits {l : Leaf} (h : l.Typed) : l.Fits := by
  cases h with
  | number op hp n =>
    simp only [List.mem_cons, List.not_mem_nil, or_false] at hp
    rcases hp with rfl | rfl | rfl
    · exact .inr ⟨by decide, rfl⟩
    · exact .inr ⟨by decide, rfl⟩
    · exact .inl rfl
  | cost op hp hc =>
    simp only [List.mem_cons, List.not_mem_nil, or_false] at hp
    rcases hp with rfl | rfl | rfl <;> exact .inl rfl
  | parity which => exact rfl
  | date op hd => exact .inl rfl
  | period hfirst hlast => exact ⟨rfl, rfl, by decide⟩
  | rarity op r => exact .inl rfl
  | text op hp s =>
    simp only [List.mem_cons, List.not_mem_nil, or_false] at hp
    rcases hp with rfl | rfl <;> exact .inl rfl
  | reprint op b => exact .inl rfl
  | contains hp part =>
    simp only [List.mem_cons, List.not_mem_nil, or_false] at hp
    rcases hp with rfl | rfl | rfl | rfl | rfl <;> exact rfl

end Leaf

theorem Datum.exists_order {d : Datum} {value : Literal} (h : value.dataKind = d.kind)
    (hcost : d.kind ≠ .cost) (condition : String) : ∃ o, d.order condition value = .ok o := by
  have horder : ∃ o, d.order? value = some o := by
    cases d with
    | cost c => exact absurd rfl hcost
    | _ => cases value <;> first | exact ⟨_, rfl⟩ | cases h
  obtain ⟨o, ho⟩ := horder
  exact ⟨o, by rw [order, ho]⟩

namespace Leaf

private theorem exists_compareCost {op : CompareOp} {p : Property} {value : Literal}
    (h : (compare op p value).Fits) (hp : p.kind = .cost) (c : ManaCost) :
    ∃ b, compareCost op p c value = .ok b := by
  cases value with
  | cost other => exact ⟨_, rfl⟩
  | int n =>
    have hne : p ≠ .cost := by
      rintro rfl
      rcases h with h | ⟨h, -⟩
      · cases h
      · revert h
        decide
    exact ⟨_, if_neg hne⟩
  | _ =>
    rcases h with h | ⟨-, h⟩
    · cases h.trans hp
    · cases h

private theorem exists_compareDatum {op : CompareOp} {p : Property} {value : Literal} {d : Datum}
    (h : (compare op p value).Fits) (hd : d.kind = p.kind) :
    ∃ b, compareDatum op p value d = .ok b := by
  by_cases hcost : d.kind = .cost
  · have hp : p ∈ [.colors, .cost, .identity] := by
      have hp : p.kind = .cost := hd.symm.trans hcost
      cases p <;> first | decide | cases hp
    cases d with
    | cost c =>
      rw [compareDatum, if_pos hp]
      exact exists_compareCost h hd.symm c
    | _ => cases hcost
  · have hkind : value.dataKind = d.kind := by
      rcases h with h | ⟨hp, -⟩
      · exact h.trans hd.symm
      · have hp : p.kind = .cost := by
          cases p <;> first | rfl | exact absurd hp (by decide)
        exact absurd (hd.trans hp) hcost
    obtain ⟨o, ho⟩ := Datum.exists_order hkind hcost op.label
    cases d with
    | cost c => exact absurd rfl hcost
    | _ => exact ⟨op.accepts o, congrArg (op.accepts <$> ·) ho⟩

private theorem exists_between {p : Property} {first last : Literal} {d : Datum}
    (hd : d.kind = p.kind) (hfirst : first.dataKind = p.kind) (hlast : last.dataKind = p.kind)
    (hp : p.kind ≠ .cost) (firstIncluded lastIncluded : Bool) :
    ∃ b, between first firstIncluded last lastIncluded d = .ok b := by
  obtain ⟨o, ho⟩ := Datum.exists_order (hfirst.trans hd.symm) (hd ▸ hp) "range"
  obtain ⟨o', ho'⟩ := Datum.exists_order (hlast.trans hd.symm) (hd ▸ hp) "range"
  simp only [between, ho, ho', bind, Except.bind]
  split
  · exact ⟨_, rfl⟩
  · exact ⟨_, rfl⟩

theorem Fits.exists_matchesDatum {l : Leaf} (h : l.Fits) {d : Datum}
    (hd : d.kind = l.property.kind) : ∃ b, l.matchesDatum d = .ok b := by
  cases l with
  | compare op p value => exact exists_compareDatum h hd
  | contains p part =>
    cases d with
    | text s => exact ⟨_, rfl⟩
    | _ => cases hd.trans h
  | parity which p =>
    cases d with
    | number x => cases which <;> exact ⟨_, rfl⟩
    | _ => cases hd.trans h
  | range p first firstIncluded last lastIncluded =>
    obtain ⟨hfirst, hlast, hp⟩ := h
    exact exists_between hd hfirst hlast hp firstIncluded lastIncluded

private theorem exists_decideEntries {test : Datum → Except EvalCause Bool}
    {ds : List (Option Datum)} (h : ∀ d, some d ∈ ds → ∃ b, test d = .ok b) (deciding : Bool) :
    ∃ b, decideEntries deciding test ds = .ok b := by
  induction ds with
  | nil => exact ⟨_, rfl⟩
  | cons d? ds ih =>
    have hrest := ih fun d hd => h d (by simp [hd])
    cases d? with
    | none => exact hrest
    | some d =>
      obtain ⟨b, hb⟩ := h d (by simp)
      simp only [decideEntries, hb]
      split
      · exact ⟨_, rfl⟩
      · exact hrest

theorem Fits.exists_matchesValues {l : Leaf} (h : l.Fits) {vs : Values}
    (hvs : vs.OfKind l.property.kind) : ∃ b, l.matchesValues vs = .ok b := by
  have hdatum : ∀ d, some d ∈ vs.entries → ∃ b, l.matchesDatum d = .ok b :=
    fun d hd => h.exists_matchesDatum (hvs d hd)
  cases vs with
  | one d => exact hdatum d (by simp [Values.entries])
  | _ => exact exists_decideEntries hdatum l.deciding

end Leaf

theorem Query.Typed.each {q : Query} (h : q.Typed) : q.condition.Each Leaf.Fits :=
  h.each_typed.mono fun _ => Leaf.Typed.fits

end CardSearch
