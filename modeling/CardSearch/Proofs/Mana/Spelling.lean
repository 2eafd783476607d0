import CardSearch.Proofs.Mana.Counts
import CardSearch.Proofs.Mana.Groups
import Mathlib.Algebra.Ring.Nat

/-!
# Spellings of a mana cost

Groups that stand one after the other are read to the end, and each of them adds to the cost what it
is read as alone. Sums that stop at the largest count do not depend on the order in which they are
formed, since they stop where the sum of all is too large. So a cost can be written in many ways: the
groups may change places, and so may the alternatives of each of them; letters may be in either case.
-/

namespace CardSearch

namespace ManaCost

/-- The cost counts what the listed costs count together, but no key more often than 32 bits can
tell. -/
structure IsCappedSum (cost : ManaCost) (costs : List ManaCost) : Prop where
  support : ∀ key, key ∈ cost.support ↔ ∃ c ∈ costs, key ∈ c.support
  count : ∀ key, (cost.count key).toNat =
    min (costs.map fun c => (c.count key).toNat).sum (UInt32.size - 1)

variable {cost cost' : ManaCost} {costs costs' : List ManaCost}

theorem IsCappedSum.unique (h : cost.IsCappedSum costs) (h' : cost'.IsCappedSum costs) :
    cost = cost' := by
  refine eq_of_support_eq (Finset.ext fun key => ?_) fun key _ => UInt32.toNat_inj.1 ?_
  · rw [h.support, h'.support]
  · rw [h.count, h'.count]

theorem IsCappedSum.perm (h : cost.IsCappedSum costs) (hperm : costs.Perm costs') :
    cost.IsCappedSum costs' where
  support key := (h.support key).trans (by simp only [hperm.mem_iff])
  count key := by rw [h.count, (hperm.map _).sum_nat]

private theorem toNat_addCapped (a b : UInt32) :
    (addCapped a b).toNat = min (a.toNat + b.toNat) (UInt32.size - 1) := by
  rw [addCapped]
  split
  · next hlt =>
    rw [UInt32.toNat_add, Nat.mod_eq_of_lt hlt]
    omega
  · next hge =>
    rw [Nat.min_eq_right (by omega)]
    rfl

private theorem count_empty (key : String) : count ∅ key = 0 := rfl

theorem support_empty : support ∅ = ∅ := rfl

private theorem isCappedSum_nil : (∅ : ManaCost).IsCappedSum [] where
  support key := by simp [support_empty]
  count key := rfl

private theorem IsCappedSum.add (h : cost.IsCappedSum costs) (e : String × UInt32) :
    (cost.add e.1 e.2).IsCappedSum (costs ++ [ofList [e]]) where
  support key := by
    have hone : (ofList [e]).support = {e.1} := support_add ∅ e.1 e.2
    rw [support_add, Finset.mem_insert, h.support]
    simp only [List.mem_append, List.mem_singleton, or_and_right, exists_or, exists_eq_left, hone,
      Finset.mem_singleton]
    exact or_comm
  count key := by
    have hone : (ofList [e]).count key = if key = e.1 then e.2 else 0 := by
      rw [ofList, List.foldl_cons, List.foldl_nil, count_add, count_empty, count_empty,
        addCapped_zero]
    rw [count_add, List.map_append, List.sum_append, List.map_singleton, List.sum_singleton, hone]
    split
    · next heq => rw [toNat_addCapped, ← heq, h.count]; omega
    · rw [UInt32.toNat_zero, Nat.add_zero, h.count]

private theorem isCappedSum_ofList (entries : List (String × UInt32)) :
    (ofList entries).IsCappedSum (entries.map fun e => ofList [e]) := by
  induction entries using List.reverseRecOn with
  | nil => exact isCappedSum_nil
  | append_singleton es e ih =>
    rw [List.map_append, ofList, List.foldl_append]
    exact ih.add e

/-- A text in braces that is read as one symbol, to its end. -/
def IsGroup (g : String) : Prop :=
  ∃ cs unit, g.toList = '\x7b' :: cs ∧ ManaUnit.scan g.toList = some (unit, [])

variable {g g' : String}

theorem isGroup_iff : IsGroup g ↔
    ∃ as unit, ManaUnit.Stands as unit ∧ g.toList = '\x7b' :: ManaUnit.closed as := by
  constructor
  · rintro ⟨cs, unit, hg, hscan⟩
    rw [hg] at hscan
    obtain ⟨as, has, rfl⟩ := ManaUnit.scan_brace_iff.1 hscan
    exact ⟨as, unit, has, by rw [hg, List.append_nil]⟩
  · rintro ⟨as, unit, has, hg⟩
    exact ⟨_, unit, hg, hg ▸ ManaUnit.scan_brace_iff.2 ⟨as, has, (List.append_nil _).symm⟩⟩

theorem read_of_scan {unit : ManaUnit} (h : ManaUnit.scan g.toList = some (unit, [])) :
    read g = ofList [unit.entry] := by
  rw [read, scan, ManaUnit.scanAll_of_scan h, ManaUnit.scanAll_nil]
  rfl

/-- What follows a group does not change what it is read as. -/
theorem adds_of_stands {as : List (List Char)} {unit : ManaUnit} (h : ManaUnit.Stands as unit) :
    ManaUnit.Adds ('\x7b' :: ManaUnit.closed as) [unit.entry] := fun _ =>
  ⟨[unit], ManaUnit.scanAll_of_scan (ManaUnit.scan_brace_iff.2 ⟨as, h, rfl⟩), rfl⟩

theorem read_of_stands {as : List (List Char)} {unit : ManaUnit} (h : ManaUnit.Stands as unit)
    (hg : g.toList = '\x7b' :: ManaUnit.closed as) : read g = ofList [unit.entry] :=
  read_of_scan (hg ▸ ManaUnit.scan_brace_iff.2 ⟨as, h, (List.append_nil _).symm⟩)

private theorem IsGroup.exists_adds (h : IsGroup g) :
    ∃ e, ManaUnit.Adds g.toList [e] ∧ read g = ofList [e] := by
  obtain ⟨as, unit, has, hg⟩ := isGroup_iff.1 h
  exact ⟨unit.entry, hg ▸ adds_of_stands has, read_of_stands has hg⟩

private theorem IsGroup.utf8Size (h : IsGroup g) : ∀ c ∈ g.toList, c.utf8Size = 1 := by
  obtain ⟨as, unit, has, hg⟩ := isGroup_iff.1 h
  rw [hg]
  have hinner : ∀ a ∈ as, ∀ c ∈ a, c.utf8Size = 1 := fun a ha =>
    let ⟨_, hm⟩ := has.forall_spells a ha
    hm.utf8Size
  exact List.forall_mem_cons.2
    ⟨rfl, ManaUnit.forall_mem_closed (p := fun c => c.utf8Size = 1) rfl rfl hinner⟩

/-- Groups one after the other are read to the end, as the sum of what they are read as alone. -/
theorem readAt_join {gs : List String} (h : ∀ g ∈ gs, IsGroup g) :
    ∃ cost : ManaCost, cost.IsCappedSum (gs.map read) ∧
      readAt (String.join gs) 0 = (cost, (String.join gs).utf8ByteSize) := by
  have hadds : ∃ entries, ManaUnit.Adds (gs.flatMap String.toList) entries ∧
      gs.map read = entries.map fun e => ofList [e] := by
    induction gs with
    | nil => exact ⟨[], ManaUnit.adds_nil, rfl⟩
    | cons g gs ih =>
      obtain ⟨hg, hgs⟩ := List.forall_mem_cons.1 h
      obtain ⟨e, hadds, hread⟩ := hg.exists_adds
      obtain ⟨entries, hadds', hreads⟩ := ih hgs
      exact ⟨e :: entries, hadds.append hadds', by rw [List.map_cons, hread, hreads, List.map_cons]⟩
  obtain ⟨entries, hadds, hreads⟩ := hadds
  have hbytes : (String.join gs).utf8ByteSize = (String.join gs).toList.length := by
    rw [← String.ofList_toList (s := String.join gs), String.toList_join, String.toList_ofList]
    refine utf8ByteSize_ofList fun c hc => ?_
    obtain ⟨g, hg, hc⟩ := List.mem_flatMap.1 hc
    exact (h g hg).utf8Size c hc
  refine ⟨ofList entries, hreads ▸ isCappedSum_ofList entries, ?_⟩
  rw [readAt_zero, hbytes, String.toList_join, scan_of_adds hadds]
  rfl

def groupOf (as : List String) : String := "\x7b" ++ "/".intercalate as ++ "\x7d"

/-- A group is written in another way: with its alternatives in another order, or with letters in
another case. -/
inductive Respelled : String → String → Prop
  | reordered {as as' : List String} (h : as.Perm as') (hstroke : ∀ a ∈ as, '/' ∉ a.toList) :
    Respelled (groupOf as) (groupOf as')
  | recased {g g' : String} (h : g.toList.map Char.toUpper = g'.toList.map Char.toUpper) :
    Respelled g g'

/-- Groups are written in another way: in another order, or one of them is. -/
inductive Rewritten : List String → List String → Prop
  | permuted {gs gs' : List String} (h : gs.Perm gs') : Rewritten gs gs'
  | respelled {g g' : String} (h : Respelled g g') (gs ds : List String) :
    Rewritten (gs ++ g :: ds) (gs ++ g' :: ds)

private theorem toList_groupOf (as : List String) :
    (groupOf as).toList = '\x7b' :: ManaUnit.closed (as.map String.toList) := by
  rw [groupOf, String.toList_append, String.toList_append, String.toList_intercalate]
  rfl

private theorem Respelled.isGroup (h : Respelled g g') (hg : IsGroup g) :
    IsGroup g' ∧ read g' = read g := by
  obtain ⟨cs, unit, hcs, hscan⟩ := hg
  cases h with
  | @reordered as as' hperm hstroke =>
    rw [toList_groupOf] at hscan
    have has := ManaUnit.stands_of_scan hscan fun a ha => by
      obtain ⟨a', ha', rfl⟩ := List.mem_map.1 ha
      exact hstroke a' ha'
    obtain ⟨unit', has', hentry⟩ := has.exists_of_perm (hperm.map String.toList)
    refine ⟨isGroup_iff.2 ⟨_, unit', has', toList_groupOf as'⟩, ?_⟩
    rw [read_of_stands has' (toList_groupOf as'), read_of_stands has (toList_groupOf as), hentry]
  | recased hcase =>
    rw [hcs, List.map_cons, eq_comm, List.map_eq_cons_iff] at hcase
    obtain ⟨c, cs', hcs', hc, hcase⟩ := hcase
    obtain rfl : c = '\x7b' := (Text.toUpper_eq_iff rfl).1 hc
    -- in upper case both texts are the same
    have hupper := (ManaUnit.scan_brace_map_toUpper cs').symm
    rw [hcase, ManaUnit.scan_brace_map_toUpper, ← hcs, hscan, ← hcs', Option.map_some,
      Option.map_eq_some_iff] at hupper
    obtain ⟨⟨unit', rest⟩, hscan', heq⟩ := hupper
    obtain ⟨rfl, hrest⟩ := Prod.mk.inj heq
    obtain rfl := List.map_eq_nil_iff.1 hrest
    exact ⟨⟨cs', unit', hcs', hscan'⟩, by rw [read_of_scan hscan', read_of_scan hscan]⟩

private theorem Rewritten.isGroup {gs gs' : List String} (h : Rewritten gs gs')
    (hgs : ∀ g ∈ gs, IsGroup g) :
    (∀ g ∈ gs', IsGroup g) ∧ (gs.map read).Perm (gs'.map read) := by
  cases h with
  | permuted hperm => exact ⟨fun g hg => hgs g (hperm.mem_iff.2 hg), hperm.map read⟩
  | @respelled g g' h gs ds =>
    simp only [List.forall_mem_append, List.forall_mem_cons] at hgs ⊢
    obtain ⟨hgs, hg, hds⟩ := hgs
    obtain ⟨hg', hread⟩ := h.isGroup hg
    refine ⟨⟨hgs, hg', hds⟩, ?_⟩
    rw [List.map_append, List.map_append, List.map_cons, List.map_cons, hread]

private theorem isGroup_of_rewritten {gs gs' : List String}
    (h : Relation.ReflTransGen Rewritten gs gs') (hgs : ∀ g ∈ gs, IsGroup g) :
    (∀ g ∈ gs', IsGroup g) ∧ (gs.map read).Perm (gs'.map read) := by
  induction h with
  | refl => exact ⟨hgs, .refl _⟩
  | tail _ hstep ih =>
    obtain ⟨hgroups, hperm⟩ := ih
    obtain ⟨hgroups', hperm'⟩ := hstep.isGroup hgroups
    exact ⟨hgroups', hperm.trans hperm'⟩

/-- Groups that are each read as one symbol are read to the end if they stand one after the other,
and their cost is the sum of what they are read as alone. It stays the same however the groups are
rewritten, and so does the encoding of a condition on it. -/
theorem readAt_join_of_rewritten {gs : List String} (h : ∀ g ∈ gs, IsGroup g) :
    ∃ cost : ManaCost, cost.IsCappedSum (gs.map read) ∧
      ∀ gs', Relation.ReflTransGen Rewritten gs gs' →
        (∀ g ∈ gs', IsGroup g) ∧
        readAt (String.join gs') 0 = (cost, (String.join gs').utf8ByteSize) ∧
        ∀ holding : ManaCost → Condition,
          (holding (readAt (String.join gs') 0).1).encode =
            (holding (readAt (String.join gs) 0).1).encode := by
  obtain ⟨cost, hsum, hread⟩ := readAt_join h
  refine ⟨cost, hsum, fun gs' hgs' => ?_⟩
  obtain ⟨hgroups, hperm⟩ := isGroup_of_rewritten hgs' h
  obtain ⟨cost', hsum', hread'⟩ := readAt_join hgroups
  obtain rfl : cost' = cost := hsum'.unique (hsum.perm hperm)
  exact ⟨hgroups, hread', fun holding => by rw [hread', hread]⟩

/-- The groups are permuted, and one of them is turned round and written in the other case. The
generic mana is more than can be counted. -/
theorem readAt_join_of_rewritten_generic :
    let gs := ["\x7b4294967295\x7d", "\x7bw/U\x7d", "\x7b2\x7d"]
    let gs' := ["\x7b2\x7d", "\x7bu/W\x7d", "\x7b4294967295\x7d"]
    (∀ g ∈ gs, IsGroup g) ∧ Relation.ReflTransGen Rewritten gs gs' ∧
      readAt (String.join gs') 0 = (ofList [("N", 4294967295), ("W/U", 1)], 20) := by
  intro gs gs'
  have hgroups : ∀ g ∈ gs, IsGroup g := by
    refine List.forall_mem_cons.2 ⟨?_, List.forall_mem_cons.2 ⟨?_, List.forall_mem_singleton.2 ?_⟩⟩
    · exact ⟨_, ⟨.generic, 4294967295⟩, rfl, by decide +kernel⟩
    · exact ⟨_, ⟨.hybrid .white .blue, 1⟩, rfl, by decide +kernel⟩
    · exact ⟨_, ⟨.generic, 2⟩, rfl, by decide +kernel⟩
  have hpermuted : Rewritten gs ["\x7b2\x7d", "\x7bw/U\x7d", "\x7b4294967295\x7d"] :=
    .permuted (by decide)
  have hturned : Respelled (groupOf ["w", "U"]) (groupOf ["U", "w"]) :=
    .reordered (by decide) (by decide)
  have hrewritten : Relation.ReflTransGen Rewritten gs gs' :=
    ((Relation.ReflTransGen.single hpermuted).tail
      (.respelled hturned ["\x7b2\x7d"] ["\x7b4294967295\x7d"])).tail
      (.respelled (.recased (by decide)) ["\x7b2\x7d"] ["\x7b4294967295\x7d"])
  obtain ⟨cost, -, hread⟩ := readAt_join_of_rewritten hgroups
  have hcost : readAt (String.join gs) 0 = (ofList [("N", 4294967295), ("W/U", 1)], 20) := by decide +kernel
  rw [(hread gs .refl).2.1] at hcost
  refine ⟨hgroups, hrewritten, ?_⟩
  rw [(hread gs' hrewritten).2.1, (Prod.mk.inj hcost).1]
  rfl

end ManaCost

end CardSearch
