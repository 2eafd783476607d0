import CardSearch.Proofs.Binary64.Integers
import CardSearch.Proofs.Query.Encoding
import CardSearch.Proofs.Query.Typed

/-!
# What identifies a query

What the encoding of a condition loses in general, it does not lose of a query that is typed: a
property with rarities is never compared with texts, and dates of the calendar are told apart by
their double-precision numbers. So queries that are typed have different encodings when their
conditions differ, unless the lengths in both cannot be told apart.

That lengths must be told apart is no idle condition. A length field says the same of all lengths
from 65535 on, so that the end of a long text may be taken for what follows it.
-/

namespace CardSearch

private theorem Rarity.label_injective {r r' : Rarity} (h : r.label = r'.label) : r = r' := by
  cases r <;> cases r' <;> first | rfl | exact absurd h (by decide)

/-- Dates of the calendar are written as different numbers. -/
theorem Binary64.eq_of_bits_ofInt {d d' : Int} (hd : d.natAbs < 2 ^ 53) (hd' : d'.natAbs < 2 ^ 53)
    (h : (ofInt d).bits.toNat = (ofInt d').bits.toNat) : d = d' :=
  ofInt_injective hd hd' (congrArg mk (UInt64.toNat_inj.1 h))

namespace Leaf

variable {l l' : Leaf}

private theorem Typed.costsReadable (h : l.Typed) : l.CostsReadable := by
  cases h with
  | cost op hp hc => exact hc
  | period hfirst hlast => exact ⟨trivial, trivial⟩
  | _ => trivial

/-- A leaf that is typed is known from what its encoding shows. -/
theorem Typed.eq_of_canonical (h : l.Typed) (h' : l'.Typed) (heq : l.canonical = l'.canonical) :
    l = l' := by
  cases h <;> cases h' <;> simp [canonical, Literal.canonical] at heq ⊢
  case number.number | cost.cost | parity.parity | text.text | reprint.reprint | contains.contains =>
    exact heq
  case date.date hd _ _ hd' => exact ⟨heq.1, Binary64.eq_of_bits_ofInt hd hd' heq.2⟩
  case period.period hfirst hlast _ _ hfirst' hlast' =>
    exact ⟨Binary64.eq_of_bits_ofInt hfirst hfirst' heq.1,
      Binary64.eq_of_bits_ofInt hlast hlast' heq.2⟩
  case rarity.rarity => exact ⟨heq.1, Rarity.label_injective heq.2⟩
  case rarity.text hp _ =>
    obtain ⟨-, rfl, -⟩ := heq
    exact absurd hp (by decide)
  case text.rarity hp _ _ _ =>
    obtain ⟨-, rfl, -⟩ := heq
    exact absurd hp (by decide)

end Leaf

namespace Condition

/-- Lists of conditions are equal if their members are known from what their encodings show. -/
theorem eq_of_map_canonical {cs ds : List Condition}
    (h : ∀ c ∈ cs, ∀ d ∈ ds, c.canonical = d.canonical → c = d)
    (heq : cs.map canonical = ds.map canonical) : cs = ds := by
  induction cs generalizing ds with
  | nil => simpa using heq.symm
  | cons c cs ih =>
    cases ds with
    | nil => cases heq
    | cons d ds =>
      obtain ⟨hhead, htail⟩ := List.cons.inj heq
      rw [h c (by simp) d (by simp) hhead,
        ih (fun c hc d hd => h c (by simp [hc]) d (by simp [hd])) htail]

/-- A condition whose leaves are typed is known from what its encoding shows. -/
theorem eq_of_canonical {c d : Condition} (hc : c.Each Leaf.Typed) (hd : d.Each Leaf.Typed)
    (heq : c.canonical = d.canonical) : c = d := by
  induction c generalizing d with
  | const b => cases d <;> simp_all [canonical]
  | not c ih =>
    cases d with
    | not d =>
      rw [canonical, canonical] at heq
      rw [ih (each_not.1 hc) (each_not.1 hd) (not.inj heq)]
    | _ => simp [canonical] at heq
  | any cs ih =>
    cases d with
    | any ds =>
      rw [canonical, canonical, canonicalList_eq, canonicalList_eq] at heq
      have hparts (c) (hcs : c ∈ cs) (d) (hds : d ∈ ds) : c.canonical = d.canonical → c = d :=
        ih c hcs (each_any.1 hc c hcs) (each_any.1 hd d hds)
      rw [eq_of_map_canonical hparts (any.inj heq)]
    | _ => simp [canonical] at heq
  | all cs ih =>
    cases d with
    | all ds =>
      rw [canonical, canonical, canonicalList_eq, canonicalList_eq] at heq
      have hparts (c) (hcs : c ∈ cs) (d) (hds : d ∈ ds) : c.canonical = d.canonical → c = d :=
        ih c hcs (each_all.1 hc c hcs) (each_all.1 hd d hds)
      rw [eq_of_map_canonical hparts (all.inj heq)]
    | _ => simp [canonical] at heq
  | leaf l =>
    cases d with
    | leaf l' =>
      rw [canonical, canonical] at heq
      rw [(each_leaf.1 hc).eq_of_canonical (each_leaf.1 hd) (leaf.inj heq)]
    | _ => simp [canonical] at heq
  | subset id => cases d <;> simp_all [canonical]

/-- Conditions whose leaves are typed have different encodings when they differ, if their lengths
are told apart. -/
theorem eq_of_encode {c d : Condition} (hc : c.Each Leaf.Typed) (hd : d.Each Leaf.Typed)
    (htold : LengthsTold c.lengths d.lengths) (h : c.encode = d.encode) : c = d := by
  have hcosts : c.Each Leaf.CostsReadable := hc.mono fun _ => Leaf.Typed.costsReadable
  have hcosts' : d.Each Leaf.CostsReadable := hd.mono fun _ => Leaf.Typed.costsReadable
  have hbody : Encoding.condition c ++ [] = Encoding.condition d ++ [] := by
    simpa [encode] using h
  exact eq_of_canonical hc hd
    ((Encoding.toldApart_of_lengthsTold htold hcosts hcosts' [] []).1 hbody).1

end Condition

namespace Encoding

private theorem length_eq_of_le {n : Nat} (h : 65535 ≤ n) : length n = [255, 255] := by
  rw [length, Nat.min_eq_right h]
  rfl

private theorem ofText_append (s t : String) :
    Bytes.ofText (s ++ t) = Bytes.ofText s ++ Bytes.ofText t := by
  simp [Bytes.ofText, String.toUTF8]

private theorem text_append_of_le {s : String} (h : 65535 ≤ s.utf8ByteSize) (t : String) :
    text (s ++ t) = text s ++ Bytes.ofText t := by
  have hsize : 65535 ≤ (s ++ t).utf8ByteSize := by
    rw [String.utf8ByteSize_append]
    omega
  rw [text, text, length_eq_of_le h, length_eq_of_le hsize, ofText_append, List.append_assoc]

end Encoding

namespace Condition

def eitherName (s t : String) : Condition :=
  any [leaf (.contains .nameSearch s), leaf (.contains .nameSearch t)]

theorem each_typed_eitherName (s t : String) : (eitherName s t).Each Leaf.Typed := by
  have hpart (s : String) : (Leaf.contains .nameSearch s).Typed := .contains (by decide) s
  simp [eitherName, hpart]

/-- After a long text, the start of one leaf cannot be told from the end of the one before: a card
by the name of y meets the first condition but not the second, and both have one encoding. -/
theorem encode_eitherName_eq {s : String} (h : 65535 ≤ s.utf8ByteSize) :
    (eitherName (s ++ "\x0c\t\x05\x00") "y").encode = (eitherName s "\x0c\t\x01\x00y").encode := by
  have hlast : Encoding.leaf (.contains .nameSearch "\x0c\t\x01\x00y") =
      Bytes.ofText "\x0c\t\x05\x00" ++ Encoding.leaf (.contains .nameSearch "y") := by decide
  simp only [eitherName, encode, Encoding.condition, Encoding.conditions, List.length_cons,
    List.length_nil, List.append_nil, hlast]
  simp only [Encoding.leaf, Encoding.text_append_of_le h, List.cons_append, List.append_assoc]

end Condition

end CardSearch
