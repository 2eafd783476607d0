import CardSearch.Proofs.Mana.Masks
import CardSearch.Proofs.Query.Leaves
import Mathlib.Algebra.Group.Nat.Defs
import Mathlib.Algebra.Ring.Int.Defs

/-!
# The canonical encoding tells conditions apart

No encoding of a condition is the start of the encoding of another one: where two encodings stand
at the start of one sequence of bytes, they are of the same condition and end at the same place.
This is stated for every part of an encoding, as an equivalence with whatever bytes follow, so
that the parts of a node come apart one after the other.

Two things are lost in an encoding. A rarity is written as the text of its name, and a date as the
double-precision number nearest to it. Beyond that the encoding is faithful as long as texts and
lists are not longer than their length fields can say and costs count symbols that can be read.
-/

namespace CardSearch

/-- The literal as far as its encoding shows it: the name of a rarity as a text, and the bits of the
double-precision number in place of a date. -/
def Literal.canonical : Literal → Literal
  | .rarity r => .text r.label
  | .date d => .date (Binary64.ofInt d).bits.toNat
  | value => value

def Leaf.canonical : Leaf → Leaf
  | .compare op p value => .compare op p value.canonical
  | .range p first firstIncluded last lastIncluded =>
    .range p first.canonical firstIncluded last.canonical lastIncluded
  | l => l

namespace Condition

mutual

/-- The condition with its literals as far as the encoding shows them. -/
def canonical : Condition → Condition
  | .const b => .const b
  | .not c => .not (canonical c)
  | .any cs => .any (canonicalList cs)
  | .all cs => .all (canonicalList cs)
  | .leaf l => .leaf l.canonical
  | .subset id => .subset id

def canonicalList : List Condition → List Condition
  | [] => []
  | c :: cs => canonical c :: canonicalList cs

end

end Condition

def FitsLength (n : Nat) : Prop := n ≤ 65535

def Literal.Encodable : Literal → Prop
  | .text s => FitsLength s.utf8ByteSize
  | .cost c => c.Readable
  | _ => True

def Leaf.Encodable : Leaf → Prop
  | .compare _ _ value => value.Encodable
  | .contains _ part => FitsLength part.utf8ByteSize
  | .parity _ _ => True
  | .range _ first _ last _ => first.Encodable ∧ last.Encodable

namespace Condition

mutual

/-- Texts and lists of the condition are short enough for their length fields, and its costs count
symbols that can be read. -/
def Encodable : Condition → Prop
  | .const _ => True
  | .not c => Encodable c
  | .any cs | .all cs => FitsLength cs.length ∧ EncodableList cs
  | .leaf l => l.Encodable
  | .subset id => FitsLength id.utf8ByteSize

def EncodableList : List Condition → Prop
  | [] => True
  | c :: cs => Encodable c ∧ EncodableList cs

end

end Condition

namespace Literal

def lengths : Literal → List Nat
  | .text s => [s.utf8ByteSize]
  | _ => []

def CostsReadable : Literal → Prop
  | .cost c => c.Readable
  | _ => True

end Literal

namespace Leaf

def lengths : Leaf → List Nat
  | .compare _ _ value => value.lengths
  | .contains _ part => [part.utf8ByteSize]
  | .parity _ _ => []
  | .range _ first _ last _ => first.lengths ++ last.lengths

def CostsReadable : Leaf → Prop
  | .compare _ _ value => value.CostsReadable
  | .range _ first _ last _ => first.CostsReadable ∧ last.CostsReadable
  | _ => True

end Leaf

namespace Condition

mutual

/-- The lengths that are written in the encoding of a condition: of its texts and of its lists. -/
def lengths : Condition → List Nat
  | .const _ => []
  | .not c => lengths c
  | .any cs | .all cs => cs.length :: lengthsOf cs
  | .leaf l => l.lengths
  | .subset id => [id.utf8ByteSize]

def lengthsOf : List Condition → List Nat
  | [] => []
  | c :: cs => lengths c ++ lengthsOf cs

end

theorem mem_lengthsOf {n : Nat} {cs : List Condition} :
    n ∈ lengthsOf cs ↔ ∃ c ∈ cs, n ∈ lengths c := by
  induction cs with
  | nil => simp [lengthsOf]
  | cons c cs ih => simp [lengthsOf, ih]

@[simp] theorem lengths_not (c : Condition) : lengths (.not c) = lengths c := by rw [lengths]

@[simp] theorem lengths_leaf (l : Leaf) : lengths (.leaf l) = l.lengths := by rw [lengths]

@[simp] theorem lengths_subset (id : String) : lengths (.subset id) = [id.utf8ByteSize] := by
  rw [lengths]

@[simp] theorem mem_lengths_any {n : Nat} {cs : List Condition} :
    n ∈ lengths (.any cs) ↔ n = cs.length ∨ ∃ c ∈ cs, n ∈ lengths c := by
  rw [lengths, List.mem_cons, mem_lengthsOf]

@[simp] theorem mem_lengths_all {n : Nat} {cs : List Condition} :
    n ∈ lengths (.all cs) ↔ n = cs.length ∨ ∃ c ∈ cs, n ∈ lengths c := by
  rw [lengths, List.mem_cons, mem_lengthsOf]

end Condition

theorem Literal.Encodable.fitsLength {value : Literal} (h : value.Encodable) :
    ∀ n ∈ value.lengths, FitsLength n := by
  cases value <;> simp_all [Literal.Encodable, Literal.lengths]

private theorem Literal.Encodable.costsReadable {value : Literal} (h : value.Encodable) :
    value.CostsReadable := by
  cases value <;> simp_all [Literal.Encodable, Literal.CostsReadable]

theorem Leaf.Encodable.fitsLength {l : Leaf} (h : l.Encodable) : ∀ n ∈ l.lengths, FitsLength n := by
  cases l with
  | compare op p value => exact Literal.Encodable.fitsLength h
  | contains p part => exact List.forall_mem_singleton.2 h
  | parity which p => simp [Leaf.lengths]
  | range p first firstIncluded last lastIncluded =>
    intro n hn
    exact (List.mem_append.1 hn).elim (h.1.fitsLength n) (h.2.fitsLength n)

theorem Leaf.Encodable.costsReadable {l : Leaf} (h : l.Encodable) : l.CostsReadable := by
  cases l with
  | compare op p value => exact Literal.Encodable.costsReadable h
  | range p first firstIncluded last lastIncluded => exact ⟨h.1.costsReadable, h.2.costsReadable⟩
  | _ => trivial

/-- No length of the first list is taken for another one of the second by its field. -/
def LengthsTold (ms ns : List Nat) : Prop :=
  ∀ m ∈ ms, ∀ n ∈ ns, Encoding.length m = Encoding.length n → m = n

theorem LengthsTold.mono {ms ns ms' ns' : List Nat} (h : LengthsTold ms ns)
    (hms : ∀ m ∈ ms', m ∈ ms) (hns : ∀ n ∈ ns', n ∈ ns) : LengthsTold ms' ns' :=
  fun m hm n hn => h m (hms m hm) n (hns n hn)

theorem Bytes.littleEndian_append_eq_iff {n a b : Nat} {x y : List UInt8} (ha : a < 256 ^ n)
    (hb : b < 256 ^ n) :
    littleEndian n a ++ x = littleEndian n b ++ y ↔ a = b ∧ x = y := by
  constructor
  · intro h
    obtain ⟨hbytes, hrest⟩ := List.append_inj h (by simp)
    have hvalue := congrArg ofLittleEndian hbytes
    simp only [ofLittleEndian_littleEndian, Nat.pow_eq] at hvalue
    rw [Nat.mod_eq_of_lt ha, Nat.mod_eq_of_lt hb] at hvalue
    exact ⟨hvalue, hrest⟩
  · rintro ⟨rfl, rfl⟩
    rfl

namespace Encoding

variable {x y : List UInt8}

theorem length_eq_iff {m n : Nat} : length m = length n ↔ min m 65535 = min n 65535 := by
  have hlt (k : Nat) : min k 65535 < 256 ^ 2 := by omega
  simpa [length] using Bytes.littleEndian_append_eq_iff (hlt m) (hlt n) (x := []) (y := [])

theorem eq_of_length_eq {m n : Nat} (hm : FitsLength m) (hn : FitsLength n)
    (h : length m = length n) : m = n := by
  rw [length_eq_iff] at h
  unfold FitsLength at hm hn
  omega

/-- A length below the largest is told apart from all others. -/
theorem eq_of_length_eq_of_lt {m n : Nat} (hm : m < 65535) (h : length m = length n) : m = n := by
  rw [length_eq_iff] at h
  omega

theorem length_append_eq_iff {m n : Nat} (h : length m = length n → m = n) :
    length m ++ x = length n ++ y ↔ m = n ∧ x = y := by
  constructor
  · intro heq
    obtain ⟨hlength, hrest⟩ := List.append_inj heq (by simp [length])
    exact ⟨h hlength, hrest⟩
  · rintro ⟨rfl, rfl⟩
    rfl

theorem text_append_eq_iff {s t : String}
    (h : length s.utf8ByteSize = length t.utf8ByteSize → s.utf8ByteSize = t.utf8ByteSize) :
    text s ++ x = text t ++ y ↔ s = t ∧ x = y := by
  simp only [text, List.append_assoc, length_append_eq_iff h]
  constructor
  · rintro ⟨hlength, h⟩
    rw [← Bytes.length_ofText, ← Bytes.length_ofText] at hlength
    obtain ⟨hbytes, hrest⟩ := List.append_inj h hlength
    exact ⟨Bytes.ofText_inj.1 hbytes, hrest⟩
  · rintro ⟨rfl, rfl⟩
    exact ⟨rfl, rfl⟩

private theorem toUInt8_eq_iff {b b' : Bool} : b.toUInt8 = b'.toUInt8 ↔ b = b' := by
  cases b <;> cases b' <;> decide

theorem flags_eq_iff {a b a' b' : Bool} :
    a.toUInt8 + 2 * b.toUInt8 = a'.toUInt8 + 2 * b'.toUInt8 ↔ a = a' ∧ b = b' := by
  cases a <;> cases b <;> cases a' <;> cases b' <;> decide

private theorem symbolCount_append_eq_iff {e e' : String × UInt32} (he : ManaSymbol.Readable e.1)
    (he' : ManaSymbol.Readable e'.1) :
    symbolCount e ++ x = symbolCount e' ++ y ↔ e = e' ∧ x = y := by
  have hmask (key : String) : (symbolMask key).toNat < 256 ^ 2 := (symbolMask key).toNat_lt
  have hcount (n : UInt32) : n.toNat < 256 ^ 4 := n.toNat_lt
  simp only [symbolCount, List.append_assoc,
    Bytes.littleEndian_append_eq_iff (hmask _) (hmask _),
    Bytes.littleEndian_append_eq_iff (hcount _) (hcount _), UInt16.toNat_inj, UInt32.toNat_inj,
    Prod.ext_iff, and_assoc]
  exact and_congr_left fun _ => ⟨symbolMask_injective he he', congrArg _⟩

private theorem flatMap_symbolCount_append_eq_iff {es es' : List (String × UInt32)}
    (hes : ∀ e ∈ es, ManaSymbol.Readable e.1) (hes' : ∀ e ∈ es', ManaSymbol.Readable e.1)
    (hlength : es.length = es'.length) :
    es.flatMap symbolCount ++ x = es'.flatMap symbolCount ++ y ↔ es = es' ∧ x = y := by
  induction es generalizing es' with
  | nil =>
    rw [List.length_nil, eq_comm, List.length_eq_zero_iff] at hlength
    simp [hlength]
  | cons e es ih =>
    cases es' with
    | nil => simp at hlength
    | cons e' es' =>
      simp only [List.forall_mem_cons] at hes hes'
      simp only [List.flatMap_cons, List.append_assoc, symbolCount_append_eq_iff hes.1 hes'.1,
        ih hes.2 hes'.2 (by simpa using hlength), List.cons.injEq, and_assoc]

private theorem cost_append_eq_iff {c c' : ManaCost} (hc : c.Readable) (hc' : c'.Readable) :
    cost c ++ x = cost c' ++ y ↔ c = c' ∧ x = y := by
  have hlt := hc.symbolCount_lt
  have hlt' := hc'.symbolCount_lt
  have hcount : UInt8.ofNat (min c.symbolCount 255) = UInt8.ofNat (min c'.symbolCount 255) ↔
      c.counts.length = c'.counts.length := by
    have hsize : UInt8.size = 256 := rfl
    rw [← UInt8.toNat_inj, UInt8.toNat_ofNat_of_lt' (by omega), UInt8.toNat_ofNat_of_lt' (by omega)]
    unfold ManaCost.symbolCount at *
    omega
  simp only [cost, List.cons_append, List.cons.injEq, hcount, ManaCost.eq_iff_counts_eq]
  constructor
  · rintro ⟨hlength, h⟩
    exact (flatMap_symbolCount_append_eq_iff hc hc' hlength).1 h
  · rintro ⟨hcounts, rfl⟩
    rw [hcounts]
    exact ⟨rfl, rfl⟩

private theorem utf8ByteSize_label_lt (r : Rarity) : r.label.utf8ByteSize < 65535 := by
  cases r <;> exact Nat.le_of_ble_eq_true rfl

/-- The name of a rarity is told apart from every text. -/
theorem text_label_append_eq_iff {r : Rarity} {s : String} :
    text r.label ++ x = text s ++ y ↔ r.label = s ∧ x = y :=
  text_append_eq_iff (eq_of_length_eq_of_lt (utf8ByteSize_label_lt r))

private theorem text_append_label_eq_iff {r : Rarity} {s : String} :
    text s ++ x = text r.label ++ y ↔ s = r.label ∧ x = y := by
  rw [eq_comm, text_label_append_eq_iff, eq_comm, eq_comm (a := y)]

private theorem toUInt32_inj {n m : Int32} : n.toUInt32 = m.toUInt32 ↔ n = m := by
  refine ⟨fun h => ?_, congrArg _⟩
  rw [← n.toInt32_toUInt32, h, m.toInt32_toUInt32]

private theorem literal_append_eq_iff {a b : Literal} (h : LengthsTold a.lengths b.lengths)
    (ha : a.CostsReadable) (hb : b.CostsReadable) :
    literal a ++ x = literal b ++ y ↔ a.canonical = b.canonical ∧ x = y := by
  have hint (n : Int32) : n.toUInt32.toNat < 256 ^ 4 := n.toUInt32.toNat_lt
  have hdate (d : Int) : (Binary64.ofInt d).bits.toNat < 256 ^ 8 := (Binary64.ofInt d).bits.toNat_lt
  cases a <;> cases b <;>
    simp_all [literal, Literal.canonical, Literal.CostsReadable, Literal.lengths, LengthsTold,
      text_append_eq_iff, text_label_append_eq_iff, text_append_label_eq_iff, cost_append_eq_iff,
      toUInt8_eq_iff, Bytes.littleEndian_append_eq_iff, UInt32.toNat_inj, toUInt32_inj]

private theorem code_eq_iff {p q : Property} : p.code = q.code ↔ p = q := by
  refine ⟨fun h => Property.index_injective (Fin.ext ?_), congrArg _⟩
  have hsize : UInt8.size = 256 := rfl
  have hp := p.index.isLt
  have hq := q.index.isLt
  have := congrArg UInt8.toNat h
  rw [Property.code, Property.code, UInt8.toNat_ofNat_of_lt' (by omega),
    UInt8.toNat_ofNat_of_lt' (by omega)] at this
  omega

private theorem compareTag_eq_iff {op op' : CompareOp} :
    compareTag op = compareTag op' ↔ op = op' := by
  cases op <;> cases op' <;> decide

def leafTag : Leaf → UInt8
  | .compare op _ _ => compareTag op
  | .contains _ _ => 12
  | .parity .even _ => 13
  | .parity .odd _ => 14
  | .range _ _ _ _ _ => 15

def leafBody : Leaf → List UInt8
  | .compare _ _ value => literal value
  | .contains _ part => text part
  | .parity _ _ => []
  | .range _ first firstIncluded last lastIncluded =>
    (firstIncluded.toUInt8 + 2 * lastIncluded.toUInt8) :: (literal first ++ literal last)

theorem leaf_eq (l : Leaf) : leaf l = leafTag l :: l.property.code :: leafBody l := by
  cases l with
  | parity which p => cases which <;> rfl
  | _ => rfl

theorem leafTag_bounds (l : Leaf) : 6 ≤ leafTag l ∧ leafTag l ≤ 15 := by
  cases l with
  | compare op p value => cases op <;> simp [leafTag, compareTag]
  | parity which p => cases which <;> simp [leafTag]
  | contains p part | range p first firstIncluded last lastIncluded => simp [leafTag]

theorem ne_leafTag {tag : UInt8} (h : ¬ (6 ≤ tag ∧ tag ≤ 15)) (l : Leaf) : tag ≠ leafTag l := by
  rintro rfl
  exact h (leafTag_bounds l)

theorem leafTag_ne {tag : UInt8} (h : ¬ (6 ≤ tag ∧ tag ≤ 15)) (l : Leaf) : leafTag l ≠ tag :=
  (ne_leafTag h l).symm

theorem leaf_append_eq_iff {l l' : Leaf} (h : LengthsTold l.lengths l'.lengths)
    (hl : l.CostsReadable) (hl' : l'.CostsReadable) :
    leaf l ++ x = leaf l' ++ y ↔ l.canonical = l'.canonical ∧ x = y := by
  simp only [leaf_eq, List.cons_append, List.cons.injEq, code_eq_iff]
  cases l with
  | compare op p value =>
    cases l' with
    | compare op' p' value' =>
      simp [leafTag, leafBody, Leaf.property, Leaf.canonical, compareTag_eq_iff,
        literal_append_eq_iff h hl hl', and_assoc]
    | parity which p' => cases op <;> cases which <;> simp [leafTag, Leaf.canonical, compareTag]
    | contains p' part | range p' first firstIncluded last lastIncluded =>
      cases op <;> simp [leafTag, Leaf.canonical, compareTag]
  | contains p part =>
    cases l' with
    | contains p' part' =>
      have htold := h part.utf8ByteSize (by simp [Leaf.lengths]) part'.utf8ByteSize
        (by simp [Leaf.lengths])
      simp [leafTag, leafBody, Leaf.property, Leaf.canonical, text_append_eq_iff htold, and_assoc]
    | compare op p' value => cases op <;> simp [leafTag, Leaf.canonical, compareTag]
    | parity which p' => cases which <;> simp [leafTag, Leaf.canonical]
    | range p' first firstIncluded last lastIncluded => simp [leafTag, Leaf.canonical]
  | parity which p =>
    cases l' with
    | parity which' p' =>
      cases which <;> cases which' <;>
        simp [leafTag, leafBody, Leaf.property, Leaf.canonical]
    | compare op p' value =>
      cases which <;> cases op <;> simp [leafTag, Leaf.canonical, compareTag]
    | contains p' part | range p' first firstIncluded last lastIncluded =>
      cases which <;> simp [leafTag, Leaf.canonical]
  | range p first firstIncluded last lastIncluded =>
    cases l' with
    | range p' first' firstIncluded' last' lastIncluded' =>
      have hfirst : LengthsTold first.lengths first'.lengths :=
        h.mono (fun n hn => by simp [Leaf.lengths, hn]) fun n hn => by simp [Leaf.lengths, hn]
      have hlast : LengthsTold last.lengths last'.lengths :=
        h.mono (fun n hn => by simp [Leaf.lengths, hn]) fun n hn => by simp [Leaf.lengths, hn]
      simp [leafTag, leafBody, Leaf.property, Leaf.canonical, flags_eq_iff,
        literal_append_eq_iff hfirst hl.1 hl'.1, literal_append_eq_iff hlast hl.2 hl'.2, and_assoc,
        and_left_comm]
    | compare op p' value => cases op <;> simp [leafTag, Leaf.canonical, compareTag]
    | parity which p' => cases which <;> simp [leafTag, Leaf.canonical]
    | contains p' part => simp [leafTag, Leaf.canonical]

private theorem conditions_eq (cs : List Condition) : conditions cs = cs.flatMap condition := by
  induction cs with
  | nil => rfl
  | cons c cs ih => rw [conditions, ih, List.flatMap_cons]

end Encoding

namespace Condition

theorem canonicalList_eq (cs : List Condition) : canonicalList cs = cs.map canonical := by
  induction cs with
  | nil => rfl
  | cons c cs ih => rw [canonicalList, ih, List.map_cons]

theorem encodableList_iff {cs : List Condition} : EncodableList cs ↔ ∀ c ∈ cs, c.Encodable := by
  induction cs with
  | nil => simp [EncodableList]
  | cons c cs ih => simp [EncodableList, ih]

theorem Encodable.fitsLength {c : Condition} (h : c.Encodable) : ∀ n ∈ c.lengths, FitsLength n := by
  induction c with
  | const b => simp [lengths]
  | not c ih =>
    rw [Condition.Encodable] at h
    simpa using ih h
  | any cs ih | all cs ih =>
    rw [Condition.Encodable, encodableList_iff] at h
    simp only [mem_lengths_any, mem_lengths_all]
    rintro n (rfl | ⟨c, hc, hn⟩)
    · exact h.1
    · exact ih c hc (h.2 c hc) n hn
  | leaf l =>
    rw [Condition.Encodable] at h
    simpa using h.fitsLength
  | subset id =>
    rw [Condition.Encodable] at h
    simpa using h

private theorem Encodable.each_costsReadable {c : Condition} (h : c.Encodable) :
    c.Each Leaf.CostsReadable := by
  induction c with
  | const b => exact each_const b
  | not c ih =>
    rw [Condition.Encodable] at h
    exact each_not.2 (ih h)
  | any cs ih =>
    rw [Condition.Encodable, encodableList_iff] at h
    exact each_any.2 fun c hc => ih c hc (h.2 c hc)
  | all cs ih =>
    rw [Condition.Encodable, encodableList_iff] at h
    exact each_all.2 fun c hc => ih c hc (h.2 c hc)
  | leaf l =>
    rw [Condition.Encodable] at h
    exact each_leaf.2 h.costsReadable
  | subset id => exact each_subset id

end Condition

namespace Encoding

open Condition

/-- Where the encodings of the two conditions start one sequence of bytes, the conditions are the
same and both encodings end at the same place. -/
def ToldApart (c d : Condition) : Prop :=
  ∀ x y, condition c ++ x = condition d ++ y ↔ c.canonical = d.canonical ∧ x = y

private theorem flatMap_condition_append_eq_iff {cs ds : List Condition}
    (hlength : cs.length = ds.length) (h : ∀ c ∈ cs, ∀ d ∈ ds, ToldApart c d) :
    cs.flatMap condition ++ x = ds.flatMap condition ++ y ↔
      cs.map canonical = ds.map canonical ∧ x = y := by
  induction cs generalizing ds with
  | nil =>
    rw [List.length_nil, eq_comm, List.length_eq_zero_iff] at hlength
    simp [hlength]
  | cons c cs ih =>
    cases ds with
    | nil => simp at hlength
    | cons d ds =>
      have hsame : cs.length = ds.length := by simpa using hlength
      have htail := ih hsame fun c hc d hd =>
        h c (List.mem_cons_of_mem _ hc) d (List.mem_cons_of_mem _ hd)
      simp only [List.flatMap_cons, List.append_assoc, h c (by simp) d (by simp) _ _, htail,
        List.map_cons, List.cons.injEq, and_assoc]

private theorem junction_append_eq_iff {cs ds : List Condition}
    (hlengths : length cs.length = length ds.length → cs.length = ds.length)
    (h : ∀ c ∈ cs, ∀ d ∈ ds, ToldApart c d) :
    length cs.length ++ (conditions cs ++ x) = length ds.length ++ (conditions ds ++ y) ↔
      canonicalList cs = canonicalList ds ∧ x = y := by
  rw [length_append_eq_iff hlengths, conditions_eq, conditions_eq, canonicalList_eq, canonicalList_eq]
  constructor
  · rintro ⟨hlength, heq⟩
    exact (flatMap_condition_append_eq_iff hlength h).1 heq
  · rintro ⟨hmap, heq⟩
    have hlength : cs.length = ds.length := by simpa using congrArg List.length hmap
    exact ⟨hlength, (flatMap_condition_append_eq_iff hlength h).2 ⟨hmap, heq⟩⟩

theorem toldApart_of_lengthsTold {c d : Condition} (h : LengthsTold c.lengths d.lengths)
    (hc : c.Each Leaf.CostsReadable) (hd : d.Each Leaf.CostsReadable) : ToldApart c d := by
  intro x y
  induction c generalizing d x y with
  | const b =>
    cases d with
    | const b' => cases b <;> cases b' <;> simp [condition, canonical]
    | _ => cases b <;> simp (disch := decide) [condition, canonical, leaf_eq, ne_leafTag]
  | not c ih =>
    cases d with
    | not d =>
      rw [lengths_not, lengths_not] at h
      simp [condition, canonical, ih h (each_not.1 hc) (each_not.1 hd)]
    | const b => cases b <;> simp [condition, canonical]
    | _ => simp (disch := decide) [condition, canonical, leaf_eq, ne_leafTag]
  | any cs ih =>
    cases d with
    | any ds =>
      have htold := h cs.length (by simp) ds.length (by simp)
      have hparts (c) (hcs : c ∈ cs) (d) (hds : d ∈ ds) : ToldApart c d :=
        ih c hcs (h.mono (fun n hn => mem_lengths_any.2 (.inr ⟨c, hcs, hn⟩))
          fun n hn => mem_lengths_any.2 (.inr ⟨d, hds, hn⟩)) (each_any.1 hc c hcs)
          (each_any.1 hd d hds)
      simp [condition, canonical, junction_append_eq_iff htold hparts]
    | const b => cases b <;> simp [condition, canonical]
    | _ => simp (disch := decide) [condition, canonical, leaf_eq, ne_leafTag]
  | all cs ih =>
    cases d with
    | all ds =>
      have htold := h cs.length (by simp) ds.length (by simp)
      have hparts (c) (hcs : c ∈ cs) (d) (hds : d ∈ ds) : ToldApart c d :=
        ih c hcs (h.mono (fun n hn => mem_lengths_all.2 (.inr ⟨c, hcs, hn⟩))
          fun n hn => mem_lengths_all.2 (.inr ⟨d, hds, hn⟩)) (each_all.1 hc c hcs)
          (each_all.1 hd d hds)
      simp [condition, canonical, junction_append_eq_iff htold hparts]
    | const b => cases b <;> simp [condition, canonical]
    | _ => simp (disch := decide) [condition, canonical, leaf_eq, ne_leafTag]
  | leaf l =>
    cases d with
    | leaf l' =>
      rw [lengths_leaf, lengths_leaf] at h
      simp [condition, canonical, leaf_append_eq_iff h (each_leaf.1 hc) (each_leaf.1 hd)]
    | const b => cases b <;> simp (disch := decide) [condition, canonical, leaf_eq, leafTag_ne]
    | _ => simp (disch := decide) [condition, canonical, leaf_eq, leafTag_ne]
  | subset id =>
    cases d with
    | subset id' =>
      have htold := h id.utf8ByteSize (by simp) id'.utf8ByteSize (by simp)
      simp [condition, canonical, text_append_eq_iff htold]
    | const b => cases b <;> simp [condition, canonical]
    | _ => simp (disch := decide) [condition, canonical, leaf_eq, ne_leafTag]

theorem lengthsTold {ms ns : List Nat} (hms : ∀ m ∈ ms, FitsLength m) (hns : ∀ n ∈ ns, FitsLength n) :
    LengthsTold ms ns :=
  fun m hm n hn => eq_of_length_eq (hms m hm) (hns n hn)

private theorem toldApart {c d : Condition} (hc : c.Encodable) (hd : d.Encodable) : ToldApart c d :=
  toldApart_of_lengthsTold (lengthsTold hc.fitsLength hd.fitsLength) hc.each_costsReadable
    hd.each_costsReadable

end Encoding

namespace Condition

/-- Two conditions whose texts, lists and costs can be written faithfully have equal encodings
exactly if they are equal once every rarity is replaced by the text of its name and dates with
the same double-precision number are taken for the same. -/
theorem encode_eq_iff_canonical {c d : Condition} (hc : c.Encodable) (hd : d.Encodable) :
    c.encode = d.encode ↔ c.canonical = d.canonical := by
  rw [encode, encode, List.append_cancel_left_eq]
  simpa using Encoding.toldApart hc hd [] []

/-- Cards that cost at least two symbols, were released after the first days of a period and have
a rarity. -/
def costlyAndLate (key : String) (hkey : "2/W" < key) (first last : Int) (scarce : Literal) :
    Condition :=
  .all [.compare .ge .cost (.cost ⟨[("2/W", 1), (key, 2)], by simpa using hkey⟩),
    .not (.leaf (.range .releasedAt (.date first) true (.date last) false)),
    .compare .eq .rarity scarce]

private theorem encodable_costlyAndLate {key : String} (hkey : "2/W" < key)
    (hread : ManaSymbol.Readable key) (first last : Int) {scarce : Literal}
    (hscarce : scarce.Encodable) : (costlyAndLate key hkey first last scarce).Encodable := by
  have hwhite : ManaSymbol.Readable "2/W" := ⟨"{2/w}".toList, _, _, rfl, rfl⟩
  have hcost : ManaCost.Readable ⟨[("2/W", 1), (key, 2)], by simpa using hkey⟩ := by
    simp [ManaCost.Readable, hwhite, hread]
  simp only [costlyAndLate, compare, Condition.Encodable, EncodableList]
  exact ⟨Nat.le_of_ble_eq_true rfl, hcost, ⟨trivial, trivial⟩, hscarce, trivial⟩

/-- Two dates that no double-precision number tells apart, and a rarity and its name, are written
alike; a hybrid symbol and its phyrexian variant are not. -/
theorem encode_eq_iff_canonical_costlyAndLate :
    (costlyAndLate "G/W/P" (by decide) 0 9007199254740993 (.rarity .rare)).Encodable ∧
    (costlyAndLate "G/W/P" (by decide) 0 9007199254740992 (.text "rare")).Encodable ∧
    (costlyAndLate "G/W" (by decide) 0 9007199254740992 (.text "rare")).Encodable ∧
    (costlyAndLate "G/W/P" (by decide) 0 9007199254740993 (.rarity .rare)).encode =
      (costlyAndLate "G/W/P" (by decide) 0 9007199254740992 (.text "rare")).encode ∧
    (costlyAndLate "G/W/P" (by decide) 0 9007199254740992 (.text "rare")).encode ≠
      (costlyAndLate "G/W" (by decide) 0 9007199254740992 (.text "rare")).encode := by
  have hphyrexian : ManaSymbol.Readable "G/W/P" := ⟨"{W/P/g}".toList, _, _, rfl, rfl⟩
  have hhybrid : ManaSymbol.Readable "G/W" := ⟨"{W/g}".toList, _, _, rfl, rfl⟩
  have hlabel : (Literal.text "rare").Encodable := Nat.le_of_ble_eq_true rfl
  have hrare : (Literal.rarity .rare).Encodable := trivial
  have h₁ := encodable_costlyAndLate (by decide) hphyrexian 0 9007199254740993 hrare
  have h₂ := encodable_costlyAndLate (by decide) hphyrexian 0 9007199254740992 hlabel
  have h₃ := encodable_costlyAndLate (by decide) hhybrid 0 9007199254740992 hlabel
  refine ⟨h₁, h₂, h₃, (encode_eq_iff_canonical h₁ h₂).2 (by decide +kernel), fun h => ?_⟩
  revert h
  rw [encode_eq_iff_canonical h₂ h₃]
  decide +kernel

end Condition

end CardSearch
