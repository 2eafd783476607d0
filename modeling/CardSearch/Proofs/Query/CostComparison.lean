import CardSearch.Proofs.Mana.Containment
import CardSearch.Proofs.Query.Denial
import CardSearch.Proofs.Query.Kinds
import Mathlib.Data.List.Permutation

/-!
# Comparing the costs of cards

A card satisfies a comparison with a cost when one of the costs that it holds does. At least as much
is more or just as much, but for one case: a cost that has another symbol in the place of zero
generic mana includes the other cost, yet it neither exceeds it nor is it the same.
-/

namespace CardSearch

/-- The costs of decoded data are costs of texts. -/
theorem ManaCost.writable_of_mem_ofFaces {backMayLack : Bool} {faces : List (Option String)}
    {cost : ManaCost} (h : some cost ∈ ofFaces backMayLack faces) : cost.Writable := by
  cases faces with
  | nil => cases h
  | cons front backs =>
    rcases List.mem_cons.1 h with hfront | hback
    · obtain ⟨s, -, rfl⟩ := Option.map_eq_some_iff.1 hfront.symm
      exact writable_scan s.toList
    · obtain ⟨face, -, hface⟩ := List.mem_map.1 hback
      split at hface
      · next s =>
        obtain ⟨-, heq⟩ := Option.ite_none_left_eq_some.1 hface
        exact Option.some.inj heq ▸ writable_scan s.toList
      · cases hface

theorem Property.mem_of_kind_eq_cost {p : Property} (h : p.kind = .cost) :
    p ∈ [colors, cost, identity] := by
  cases p <;> first | decide | cases h

private theorem Property.writable_of_decodeRecord {p : Property} {item : Json} {vs : Values}
    (h : p.decodeRecord item = .ok vs) {cost : ManaCost} (hcost : some (.cost cost) ∈ vs.entries) :
    cost.Writable := by
  have hkind : DataKind.cost = p.kind := ofKind_decodeRecord h _ hcost
  have hp := mem_of_kind_eq_cost hkind.symm
  simp only [List.mem_cons, List.not_mem_nil, or_false] at hp
  unfold decodeRecord at h
  split at h
  · cases h
    cases hcost
  · rcases hp with rfl | rfl | rfl
    case inl | inr.inl =>
      simp only [decodeValue] at h
      split at h <;> cases h
      next hread =>
        obtain ⟨faces, -, rfl⟩ := Option.map_eq_some_iff.1 hread
        obtain ⟨cost?, hmem, hsome⟩ := List.mem_map.1 hcost
        obtain ⟨_, rfl, heq⟩ := Option.map_eq_some_iff.1 hsome
        cases heq
        exact ManaCost.writable_of_mem_ofFaces hmem
    case inr.inr =>
      simp only [decodeValue] at h
      split at h <;> cases h
      next hread =>
        obtain ⟨s, -, rfl⟩ := Option.map_eq_some_iff.1 hread
        cases List.mem_singleton.1 hcost
        exact ManaCost.writable_scan s.toList

theorem Catalog.Reachable.writable {catalog : Catalog} (h : catalog.Reachable) {p : Property}
    (hp : p.kind = .cost) (record version : Nat) {cost : ManaCost}
    (hcost : some (.cost cost) ∈ (catalog.getForVersion record version p).entries) :
    cost.Writable := by
  have hsource : p.source = p := by cases p <;> first | rfl | cases hp
  have hcard : p.isPerVersion = false := by cases p <;> first | rfl | cases hp
  rw [EvalContext.getForVersion_of_card hcard] at hcost
  obtain ⟨item, hitem⟩ := h.exists_get_eq hsource record
  exact Property.writable_of_decodeRecord hitem hcost

/-- A value satisfies the comparison of a property with a cost. -/
def CompareOp.Meets (op : CompareOp) (p : Property) (vs : Values) (other : ManaCost) : Prop :=
  (Leaf.compare op p (.cost other)).matchesValues vs = .ok true

instance (op : CompareOp) (p : Property) (vs : Values) (other : ManaCost) :
    Decidable (op.Meets p vs other) :=
  inferInstanceAs (Decidable (_ = _))

section Meets

variable {p : Property} {vs : Values} {other : ManaCost}

theorem exists_matchesValues_cost (hp : p.kind = .cost) (hvs : vs.OfKind .cost) (op : CompareOp)
    (other : ManaCost) : ∃ b, (Leaf.compare op p (.cost other)).matchesValues vs = .ok b := by
  have hfits : (Leaf.compare op p (.cost other)).Fits := .inl hp.symm
  exact hfits.exists_matchesValues (hp ▸ hvs)

/-- A comparison with a cost, other than that it differs, is satisfied by the values of which an
entry satisfies it. -/
theorem CompareOp.meets_iff (op : CompareOp) (hop : op ≠ .ne) (hp : p.kind = .cost)
    (hvs : vs.OfKind .cost) : op.Meets p vs other ↔
      ∃ cost, some (.cost cost) ∈ vs.entries ∧ op.acceptsCost cost other = true := by
  obtain ⟨b, hb⟩ := exists_matchesValues_cost hp hvs op other
  have hdeciding : (Leaf.compare op p (.cost other)).deciding = true := by
    cases op <;> first | rfl | exact absurd rfl hop
  have hentry := hb
  rw [Leaf.matchesValues, hdeciding, Values.decide_eq_decideEntries] at hentry
  rw [Meets, hb, Except.ok.injEq, decideEntries_eq_true_iff hentry]
  have hmem := Property.mem_of_kind_eq_cost hp
  constructor
  · rintro ⟨d, hd, hmatch⟩
    cases d with
    | cost cost =>
      rw [Leaf.matchesDatum, Leaf.compareDatum, if_pos hmem, Leaf.compareCost,
        Except.ok.injEq] at hmatch
      exact ⟨cost, hd, hmatch⟩
    | bool _ | number _ | text _ | date _ | rarity _ => cases hvs _ hd
  · rintro ⟨cost, hcost, haccepts⟩
    refine ⟨.cost cost, hcost, ?_⟩
    rw [Leaf.matchesDatum, Leaf.compareDatum, if_pos hmem, Leaf.compareCost, haccepts]

private theorem ge_meets_iff (hp : p.kind = .cost) (hvs : vs.OfKind .cost)
    (hother : other.OnlyGenericZero) :
    CompareOp.ge.Meets p vs other ↔ CompareOp.gt.Meets p vs other ∨ CompareOp.eq.Meets p vs other ∨
      ∃ cost, some (.cost cost) ∈ vs.entries ∧ cost.ReplacesZero other := by
  rw [CompareOp.meets_iff .ge nofun hp hvs, CompareOp.meets_iff .gt nofun hp hvs,
    CompareOp.meets_iff .eq nofun hp hvs, ← exists_or, ← exists_or]
  refine exists_congr fun cost => ?_
  rw [← and_or_left, ← and_or_left]
  exact and_congr_right fun _ => hother.includes_iff_or

private theorem le_meets_iff (hp : p.kind = .cost) (hvs : vs.OfKind .cost)
    (hentries : ∀ cost, some (.cost cost) ∈ vs.entries → cost.OnlyGenericZero) :
    CompareOp.le.Meets p vs other ↔ CompareOp.lt.Meets p vs other ∨ CompareOp.eq.Meets p vs other ∨
      ∃ cost, some (.cost cost) ∈ vs.entries ∧ other.ReplacesZero cost := by
  rw [CompareOp.meets_iff .le nofun hp hvs, CompareOp.meets_iff .lt nofun hp hvs,
    CompareOp.meets_iff .eq nofun hp hvs, ← exists_or, ← exists_or]
  refine exists_congr fun cost => ?_
  rw [← and_or_left, ← and_or_left]
  refine and_congr_right fun hcost => (hentries cost hcost).includes_iff_or.trans ?_
  refine or_congr_right (or_congr_left ?_)
  rw [ManaCost.sameAs_iff, CompareOp.acceptsCost, ManaCost.sameAs_iff, eq_comm]

end Meets

/-- A cost includes one of a text exactly if it exceeds it or is the same, or if it has another symbol
where the other has zero generic mana; and then it does neither. So a card whose costs were decoded
satisfies that its cost is at least the one asked for, or at most that, exactly if it satisfies the
strict comparison or the equality, or if one of its costs stands so to the one asked for. -/
theorem atLeast_iff_more_or_same {t : String} {start : Nat} {b : ManaCost}
    (hb : (ManaCost.readAt t start).1 = b) :
    (∀ a : ManaCost,
      (a.includes b = true ↔ a.exceeds b = true ∨ a.sameAs b = true ∨ a.ReplacesZero b) ∧
      (a.ReplacesZero b → a.exceeds b = false ∧ a.sameAs b = false)) ∧
    ∀ catalog : Catalog, catalog.Reachable → ∀ p ∈ [Property.colors, .cost, .identity],
      ∀ record version : Nat,
        let vs := catalog.getForVersion record version p
        (∀ op : CompareOp, ∃ answer, (Leaf.compare op p (.cost b)).matchesValues vs = .ok answer) ∧
        (CompareOp.ge.Meets p vs b ↔
          CompareOp.gt.Meets p vs b ∨ CompareOp.eq.Meets p vs b ∨
            ∃ cost, some (.cost cost) ∈ vs.entries ∧ cost.ReplacesZero b) ∧
        (CompareOp.le.Meets p vs b ↔
          CompareOp.lt.Meets p vs b ∨ CompareOp.eq.Meets p vs b ∨
            ∃ cost, some (.cost cost) ∈ vs.entries ∧ b.ReplacesZero cost) := by
  have hb : b.OnlyGenericZero := hb ▸ (ManaCost.writable_readAt t start).onlyGenericZero
  refine ⟨fun a => ⟨hb.includes_iff_or, fun h => ⟨Bool.eq_false_iff.2 h.not_exceeds, ?_⟩⟩, ?_⟩
  · exact Bool.eq_false_iff.2 fun hsame => h.ne (ManaCost.sameAs_iff.1 hsame)
  · intro catalog hcatalog p hp record version vs
    have hkind : p.kind = .cost := by
      simp only [List.mem_cons, List.not_mem_nil, or_false] at hp
      rcases hp with rfl | rfl | rfl <;> rfl
    have hvs : vs.OfKind .cost := hkind ▸ hcatalog.ofKinds.getForVersion record version p
    have hentries : ∀ cost, some (.cost cost) ∈ vs.entries → cost.OnlyGenericZero :=
      fun cost hcost => (hcatalog.writable hkind record version hcost).onlyGenericZero
    exact ⟨fun op => exists_matchesValues_cost hkind hvs op b, ge_meets_iff hkind hvs hb,
      le_meets_iff hkind hvs hentries⟩

def whiteBlue : Catalog := Catalog.putStored ∅ .cost #[.costs [some (ManaCost.read "wu")]]

/-- The card costs at least no generic mana and a white one, but neither more nor just as much, since
its blue mana stands where the other cost has zero generic mana. -/
theorem atLeast_iff_more_or_same_whiteBlue :
    let vs := whiteBlue.getForVersion 0 0 .cost
    let query := ManaCost.ofList [("N", 0), ("W", 1)]
    (ManaCost.readAt "0w" 0).1 = query ∧
      whiteBlue.Reachable ∧ .cost ∈ [Property.colors, .cost, .identity] ∧
      CompareOp.ge.Meets .cost vs query ∧ ¬ CompareOp.gt.Meets .cost vs query ∧
      ¬ CompareOp.eq.Meets .cost vs query ∧
      ∃ cost, some (.cost cost) ∈ vs.entries ∧ cost.ReplacesZero query := by
  intro vs query
  have hinsert : Catalog.insert ∅ .cost (.list [.list [.text "wu"]]) = .ok whiteBlue := rfl
  have hcatalog : whiteBlue.Reachable := Catalog.Reachable.cleared.insert hinsert
  have hp : Property.cost ∈ [Property.colors, .cost, .identity] := by decide
  have hread : ManaCost.read "wu" = ManaCost.ofList [("U", 1), ("W", 1)] := by decide +kernel
  have hvs : vs = .costs [some (ManaCost.ofList [("U", 1), ("W", 1)])] := by
    rw [← hread]
    rfl
  have hquery : (ManaCost.readAt "0w" 0).1 = query := by decide +kernel
  have hge : CompareOp.ge.Meets .cost vs query := by
    rw [hvs]
    decide
  have hgt : ¬ CompareOp.gt.Meets .cost vs query := by
    rw [hvs]
    decide
  have heq : ¬ CompareOp.eq.Meets .cost vs query := by
    rw [hvs]
    decide
  obtain ⟨-, hrecords⟩ := atLeast_iff_more_or_same hquery
  obtain ⟨-, hmeets, -⟩ := hrecords whiteBlue hcatalog .cost hp 0 0
  exact ⟨hquery, hcatalog, hp, hge, hgt, heq,
    ((hmeets.1 hge).resolve_left hgt).resolve_left heq⟩

end CardSearch
