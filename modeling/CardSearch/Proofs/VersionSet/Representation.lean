import CardSearch.Proofs.VersionSet.Laws
import CardSearch.Proofs.VersionSet.Windows
import CardSearch.VersionSet.Shared
import Mathlib.Data.Option.Basic

/-!
# Sets in shared memory act as values

A handle holds a value in a memory. If each operation on handles does what the operation on values
does, and changes nothing outside the range of its target, then any run over handles answers and
shows what the run over values does, since the ranges of distinct sets never meet.
-/

namespace CardSearch

variable {η μ σ : Type}

structure Layout (η μ σ : Type) where
  /-- The range of slots of a handle. -/
  region : η → Region
  /-- In a memory a handle is in order and has the members of a value. -/
  Holds : μ → η → σ → Prop
  /-- The second memory is the first one but for a range. -/
  Changed : Region → μ → μ → Prop

namespace Layout

/-- An operation on a handle leaves it with a value, and changes nothing else. -/
structure Updates (L : Layout η μ σ) (m : μ) (s : η) (r : η × μ) (value : σ) : Prop where
  holds : L.Holds r.2 r.1 value
  region_eq : L.region r.1 = L.region s
  changed : L.Changed (L.region s) m r.2

structure Makes [SharedSet η μ] (L : Layout η μ σ) (m : μ) (r : η × μ) (value : σ × Arena) :
    Prop where
  arena_eq : SharedSet.arena η r.2 = value.2
  holds : L.Holds r.2 r.1 value.1
  others {t : η} {other : σ} : L.Holds m t other →
    (L.region t).Apart (L.region r.1) ∧ L.Holds r.2 t other

/-- Either both make a set, which is the same, or they fail in the same way. -/
inductive Agrees [SharedSet η μ] (L : Layout η μ σ) (m : μ) :
    Except SetError (η × μ) → Except SetError (σ × Arena) → Prop
  | ok {r : η × μ} {value : σ × Arena} (h : L.Makes m r value) : L.Agrees m (.ok r) (.ok value)
  | error (e : SetError) : L.Agrees m (.error e) (.error e)

/-- What handles show is what their values show, and operations on handles do what those on values
do, where the arguments are such as the operations are meant for. -/
structure Lawful [SharedSet η μ] [VersionSet σ] (L : Layout η μ σ) : Prop where
  capacity_eq {m : μ} {s : η} {S : σ} : L.Holds m s S →
    SharedSet.capacity s = VersionSet.capacity S
  size_eq {m : μ} {s : η} {S : σ} : L.Holds m s S → SharedSet.size s = VersionSet.size S
  contains_eq {m : μ} {s : η} {S : σ} (h : L.Holds m s S) (v : Nat) :
    SharedSet.contains m s v = VersionSet.contains S v
  first_eq {m : μ} {s : η} {S : σ} : L.Holds m s S →
    SharedSet.first? m s = VersionSet.first? S
  toList_eq {m : μ} {s : η} {S : σ} : L.Holds m s S → SharedSet.toList m s = VersionSet.toList S
  arena_eq {r : Region} {m m' : μ} : L.Changed r m m' →
    SharedSet.arena η m' = SharedSet.arena η m
  holds_of_changed {r : Region} {m m' : μ} {s : η} {S : σ} : L.Changed r m m' →
    (L.region s).Apart r → L.Holds m s S → L.Holds m' s S
  create {m : μ} (h : (SharedSet.arena η m).used ≤ (SharedSet.arena η m).slots) (n : Nat) :
    L.Agrees m (SharedSet.create m n) (VersionSet.create (SharedSet.arena η m) n)
  copy {m : μ} {s : η} {S : σ}
    (h : (SharedSet.arena η m).used ≤ (SharedSet.arena η m).slots) : L.Holds m s S →
    L.Agrees m (SharedSet.copy m s) (VersionSet.copy (SharedSet.arena η m) S)
  add {m : μ} {s : η} {S : σ} {v : Nat} : L.Holds m s S → v < VersionSet.capacity S →
    L.Updates m s (SharedSet.add m s v) (VersionSet.add S v)
  push {m : μ} {s : η} {S : σ} {v : Nat} : L.Holds m s S → v < VersionSet.capacity S →
    (SharedSet.pushesInOrder η = true → ∀ w ∈ VersionSet.toList S, w < v) →
    L.Updates m s (SharedSet.push m s v) (VersionSet.add S v)
  remove {m : μ} {s : η} {S : σ} {v : Nat} : L.Holds m s S → v < VersionSet.capacity S →
    L.Updates m s (SharedSet.remove m s v) (VersionSet.remove S [v])
  clear {m : μ} {s : η} {S : σ} : L.Holds m s S →
    L.Updates m s (SharedSet.clear m s) (VersionSet.clear S)
  fill {m : μ} {s : η} {S : σ} : L.Holds m s S →
    L.Updates m s (SharedSet.fill m s) (VersionSet.fill S)
  invert {m : μ} {s : η} {S : σ} : L.Holds m s S →
    L.Updates m s (SharedSet.invert m s) (VersionSet.invert S)
  unite {m : μ} {s t : η} {S T : σ} : L.Holds m s S → L.Holds m t T →
    (L.region s).Apart (L.region t) → VersionSet.capacity S = VersionSet.capacity T →
    L.Updates m s (SharedSet.unite m s t) (VersionSet.unite S T)
  subtract {m : μ} {s t : η} {S T : σ} : L.Holds m s S → L.Holds m t T →
    (L.region s).Apart (L.region t) → VersionSet.capacity S = VersionSet.capacity T →
    L.Updates m s (SharedSet.subtract m s t) (VersionSet.subtract S T)
  copyOnto {m : μ} {s t : η} {S T : σ} : L.Holds m s S → L.Holds m t T →
    (L.region s).Apart (L.region t) → VersionSet.capacity S = VersionSet.capacity T →
    L.Updates m t (SharedSet.copyOnto m s t) S
  retain {m : μ} {s : η} {S : σ} {ε : Type} (keep : Nat → Except ε Bool) : L.Holds m s S →
    L.Updates m s (SharedSet.retain keep m s).1 (VersionSet.retain keep S).1 ∧
      (SharedSet.retain keep m s).2 = (VersionSet.retain keep S).2

end Layout

namespace Sets

variable {ε : Type}

/-- A step asks for what its operation is meant for: two sets are distinct, and what is pushed lies
below the capacity and, where that matters, above all members. -/
def Allows [SharedSet η μ] (sets : Sets η μ) : SetOp ε → Prop
  | .push i v => ∀ s, sets.handles[i]? = some s → v < SharedSet.capacity s ∧
      (SharedSet.pushesInOrder η = true → ∀ w ∈ SharedSet.toList sets.memory s, w < v)
  | .union i j | .diff i j | .copyInto i j => i ≠ j
  | _ => True

/-- All steps of a run ask for what their operations are meant for. -/
def AllowsAll [SharedSet η μ] (sets : Sets η μ) : List (SetOp ε) → Prop
  | [] => True
  | op :: ops => sets.Allows op ∧ (sets.step op).1.AllowsAll ops

/-- Handles with ranges that do not meet hold the values of the same numbers. -/
structure Represents [SharedSet η μ] (L : Layout η μ σ) (X : Sets η μ) (Y : Sets σ Arena) :
    Prop where
  arena_eq : SharedSet.arena η X.memory = Y.memory
  used_le : Y.memory.used ≤ Y.memory.slots
  holds (i : Nat) : Option.Rel (L.Holds X.memory) X.handles[i]? Y.handles[i]?
  apart {i j : Nat} {s t : η} : i ≠ j → X.handles[i]? = some s → X.handles[j]? = some t →
    (L.region s).Apart (L.region t)

def Matches [SharedSet η μ] (L : Layout η μ σ) (p : Sets η μ × SetAnswer ε)
    (q : Sets σ Arena × SetAnswer ε) : Prop := Represents L p.1 q.1 ∧ p.2 = q.2

end Sets

section Checked

variable [SharedSet η μ] (m : μ) (s t : η) (v : Nat)

theorem SharedSet.insert_eq : SharedSet.insert m s v =
    if v < SharedSet.capacity s then .ok (SharedSet.add m s v)
    else .error (.outOfBounds v (SharedSet.capacity s)) := by
  rw [insert, checkBounds]
  split <;> rfl

theorem SharedSet.erase_eq : SharedSet.erase m s v =
    if v < SharedSet.capacity s then .ok (SharedSet.remove m s v)
    else .error (.outOfBounds v (SharedSet.capacity s)) := by
  rw [erase, checkBounds]
  split <;> rfl

theorem SharedSet.union_eq : SharedSet.union m s t =
    if SharedSet.capacity s = SharedSet.capacity t then .ok (SharedSet.unite m s t)
    else .error (.capacityMismatch (SharedSet.capacity s) (SharedSet.capacity t)) := by
  rw [union, checkCapacity]
  split <;> rfl

theorem SharedSet.diff_eq : SharedSet.diff m s t =
    if SharedSet.capacity s = SharedSet.capacity t then .ok (SharedSet.subtract m s t)
    else .error (.capacityMismatch (SharedSet.capacity s) (SharedSet.capacity t)) := by
  rw [diff, checkCapacity]
  split <;> rfl

theorem SharedSet.copyInto_eq : SharedSet.copyInto m s t =
    if SharedSet.capacity s = SharedSet.capacity t then .ok (SharedSet.copyOnto m s t)
    else .error (.capacityMismatch (SharedSet.capacity s) (SharedSet.capacity t)) := by
  rw [copyInto, checkCapacity]
  split <;> rfl

end Checked

theorem Arena.used_le_of_take {arena next : Arena} {count : Nat} (h : arena.take count = .ok next)
    (hused : arena.used ≤ arena.slots) : next.used ≤ next.slots := by
  unfold take available at h
  split at h
  · cases h
  · cases h
    dsimp only
    omega

namespace VersionSet

variable [VersionSet σ] {arena : Arena}

theorem used_le_of_create {n : Nat} {r : σ × Arena} (h : create arena n = .ok r)
    (hused : arena.used ≤ arena.slots) : r.2.used ≤ r.2.slots := by
  by_cases hn : n ≤ largest σ
  · rw [create_eq n arena hn] at h
    cases htake : arena.take (slotsFor σ n) with
    | error e => simp [htake, Except.map] at h
    | ok next =>
      rw [htake] at h
      cases h
      exact Arena.used_le_of_take htake hused
  · simp [create, hn] at h

theorem used_le_of_copy {s : σ} {r : σ × Arena} (h : copy arena s = .ok r)
    (hused : arena.used ≤ arena.slots) : r.2.used ≤ r.2.slots := by
  rw [copy_eq] at h
  cases htake : arena.take (slotsFor σ (capacity s)) with
  | error e => simp [htake, Except.map] at h
  | ok next =>
    rw [htake] at h
    cases h
    exact Arena.used_le_of_take htake hused

end VersionSet

/-- A copy is a new set into which the members are put then. -/
theorem Layout.Agrees.copy [SharedSet η μ] [VersionSet σ] [LawfulVersionSet σ]
    {L : Layout η μ σ} {m : μ} {s : η} {S : σ} {n : Nat}
    (harena : ∀ {r : Region} {m m' : μ}, L.Changed r m m' →
      SharedSet.arena η m' = SharedSet.arena η m)
    (hframe : ∀ {r : Region} {m m' : μ} {s : η} {S : σ}, L.Changed r m m' →
      (L.region s).Apart r → L.Holds m s S → L.Holds m' s S)
    (hcopy : ∀ {m' : μ} {t : η} {T : σ}, L.Holds m' s S → L.Holds m' t T →
      VersionSet.capacity S = VersionSet.capacity T →
      L.Updates m' t (SharedSet.copyOnto m' s t) S)
    (hholds : L.Holds m s S) (hn : VersionSet.capacity S ≤ VersionSet.largest σ)
    (hcreate : L.Agrees m (SharedSet.create m n)
      (VersionSet.create (SharedSet.arena η m) (VersionSet.capacity S))) :
    L.Agrees m
      (do
        let (t, m) ← SharedSet.create m n
        return SharedSet.copyOnto m s t)
      (VersionSet.copy (SharedSet.arena η m) S) := by
  rw [VersionSet.create_eq _ _ hn] at hcreate
  rw [VersionSet.copy_eq]
  generalize (SharedSet.arena η m).take (VersionSet.slotsFor σ (VersionSet.capacity S)) = next at *
  generalize (SharedSet.create m n : Except SetError (η × μ)) = r at *
  cases next with
  | error e =>
    cases hcreate with
    | error => exact .error _
  | ok next =>
    cases hcreate with
    | @ok r _ hmakes =>
      have hupdates := hcopy (hmakes.others hholds).2 hmakes.holds
        (LawfulVersionSet.capacity_empty hn).symm
      refine .ok ⟨(harena hupdates.changed).trans hmakes.arena_eq, hupdates.holds, fun hother => ?_⟩
      obtain ⟨hapart, hother⟩ := hmakes.others hother
      refine ⟨?_, hframe hupdates.changed hapart hother⟩
      rw [hupdates.region_eq]
      exact hapart

namespace Sets

variable {ε : Type}

namespace Represents

variable [SharedSet η μ] {L : Layout η μ σ} {X : Sets η μ} {Y : Sets σ Arena} {i : Nat}

theorem withSet (h : Represents L X Y) {f : η → Sets η μ × SetAnswer ε}
    {g : σ → Sets σ Arena × SetAnswer ε}
    (hnext : ∀ s S, X.handles[i]? = some s → Y.handles[i]? = some S → L.Holds X.memory s S →
      Matches L (f s) (g S)) : Matches L (X.withSet i f) (Y.withSet i g) := by
  have hrel := h.holds i
  unfold Sets.withSet
  generalize hs : X.handles[i]? = s, hS : Y.handles[i]? = S at hrel
  cases hrel with
  | none => exact ⟨h, rfl⟩
  | some hholds => exact hnext _ _ hs hS hholds

theorem withSets (h : Represents L X Y) {j : Nat} {f : η → η → Sets η μ × SetAnswer ε}
    {g : σ → σ → Sets σ Arena × SetAnswer ε}
    (hnext : ∀ s S t T, X.handles[i]? = some s → Y.handles[i]? = some S →
      X.handles[j]? = some t → Y.handles[j]? = some T → L.Holds X.memory s S →
      L.Holds X.memory t T → Matches L (f s t) (g S T)) :
    Matches L (X.withSet i fun s => X.withSet j (f s)) (Y.withSet i fun S => Y.withSet j (g S)) :=
  h.withSet fun s S hs hS hholds => h.withSet fun t T ht hT hholds' =>
    hnext s S t T hs hS ht hT hholds hholds'

theorem length_eq (h : Represents L X Y) : X.handles.length = Y.handles.length := by
  refine Nat.le_antisymm (Nat.le_of_not_lt fun hlt => ?_) (Nat.le_of_not_lt fun hlt => ?_)
  · have hrel := h.holds Y.handles.length
    rw [List.getElem?_eq_getElem hlt, List.getElem?_eq_none (Nat.le_refl _)] at hrel
    cases hrel
  · have hrel := h.holds X.handles.length
    rw [List.getElem?_eq_getElem hlt, List.getElem?_eq_none (Nat.le_refl _)] at hrel
    cases hrel

/-- A new handle holds the new value, and the others stay apart from it. -/
theorem adding (h : Represents L X Y) {r : Except SetError (η × μ)}
    {value : Except SetError (σ × Arena)} (hr : L.Agrees X.memory r value)
    (hused : ∀ v, value = .ok v → v.2.used ≤ v.2.slots) :
    Matches (ε := ε) L (X.adding r) (Y.adding value) := by
  cases hr with
  | error e => exact ⟨h, rfl⟩
  | @ok r value hmakes =>
    -- a number of the new sets is that of an old one, or the first that no old one has
    have hcases (k : Nat) (t : η) (ht : (X.handles ++ [r.1])[k]? = some t) :
        X.handles[k]? = some t ∨ k = X.handles.length ∧ t = r.1 := by
      rw [List.getElem?_append] at ht
      grind
    refine ⟨⟨hmakes.arena_eq, hused _ rfl, fun k => ?_, fun {j k t u} hjk ht hu => ?_⟩, rfl⟩
    · change Option.Rel (L.Holds r.2) (X.handles ++ [r.1])[k]? (Y.handles ++ [value.1])[k]?
      rw [List.getElem?_append, List.getElem?_append, ← h.length_eq]
      split
      · have hrel := h.holds k
        generalize X.handles[k]? = t, Y.handles[k]? = T at hrel
        cases hrel with
        | none => exact .none
        | some hholds => exact .some (hmakes.others hholds).2
      · cases k - X.handles.length with
        | zero => exact .some hmakes.holds
        | succ => exact .none
    · have hnew (k : Nat) (t : η) (ht : X.handles[k]? = some t) :
          (L.region t).Apart (L.region r.1) := by
        have hrel := h.holds k
        rw [ht] at hrel
        generalize Y.handles[k]? = T at hrel
        cases hrel with
        | some hholds => exact (hmakes.others hholds).1
      rcases hcases j t ht with ht | ⟨rfl, rfl⟩ <;> rcases hcases k u hu with hu | ⟨rfl, rfl⟩
      · exact h.apart hjk ht hu
      · exact hnew j t ht
      · exact (hnew k u hu).symm
      · exact absurd rfl hjk

variable [VersionSet σ]

/-- Changing one handle changes the value of the same number, and no other. -/
theorem replacing (hL : L.Lawful) (h : Represents L X Y) {s : η} {S S' : σ}
    (hs : X.handles[i]? = some s) (hS : Y.handles[i]? = some S) {r : η × μ}
    (hr : L.Updates X.memory s r S') :
    Matches (ε := ε) L (X.replacing i (.ok r)) (Y.replacing i (.ok (S', Y.memory))) := by
  have hi : i < X.handles.length := (List.getElem?_eq_some_iff.1 hs).1
  have hi' : i < Y.handles.length := (List.getElem?_eq_some_iff.1 hS).1
  refine ⟨⟨(hL.arena_eq hr.changed).trans h.arena_eq, h.used_le, fun k => ?_,
    fun {j k t u} hjk ht hu => ?_⟩, rfl⟩
  · change Option.Rel (L.Holds r.2) (X.handles.set i r.1)[k]? (Y.handles.set i S')[k]?
    by_cases hk : i = k
    · subst hk
      rw [List.getElem?_set_self hi, List.getElem?_set_self hi']
      exact .some hr.holds
    · rw [List.getElem?_set_ne hk, List.getElem?_set_ne hk]
      have hrel := h.holds k
      generalize ht : X.handles[k]? = t, Y.handles[k]? = T at hrel
      cases hrel with
      | none => exact .none
      | some hholds =>
        exact .some (hL.holds_of_changed hr.changed (h.apart (Ne.symm hk) ht hs) hholds)
  · -- the changed handle has the range of the one before it
    have hregion (k : Nat) (t : η) (ht : (X.handles.set i r.1)[k]? = some t) :
        ∃ t', X.handles[k]? = some t' ∧ L.region t = L.region t' := by
      by_cases hk : i = k
      · subst hk
        rw [List.getElem?_set_self hi] at ht
        cases ht
        exact ⟨s, hs, hr.region_eq⟩
      · rw [List.getElem?_set_ne hk] at ht
        exact ⟨t, ht, rfl⟩
    obtain ⟨t', ht', htt'⟩ := hregion j t ht
    obtain ⟨u', hu', huu'⟩ := hregion k u hu
    rw [htt', huu']
    exact h.apart hjk ht' hu'

/-- An operation that is checked first is done, or fails, on handles as it does on values. -/
theorem replacing_checked (hL : L.Lawful) (h : Represents L X Y) {s : η} {S S' : σ}
    (hs : X.handles[i]? = some s) (hS : Y.handles[i]? = some S) {p q : Prop} [Decidable p]
    [Decidable q] (hpq : p ↔ q) {e e' : SetError} (he : e = e') {r : η × μ}
    (hr : q → L.Updates X.memory s r S') :
    Matches (ε := ε) L (X.replacing i (if p then .ok r else .error e))
      (Y.replacing i (if q then .ok (S', Y.memory) else .error e')) := by
  by_cases hq : q
  · rw [if_pos (hpq.2 hq), if_pos hq]
    exact h.replacing hL hs hS (hr hq)
  · rw [if_neg (mt hpq.1 hq), if_neg hq, he]
    exact ⟨h, rfl⟩

theorem step (hL : L.Lawful) (h : Represents L X Y) {op : SetOp ε} (hop : X.Allows op) :
    Matches L (X.step op) (Y.step op) := by
  have hused : (SharedSet.arena η X.memory).used ≤ (SharedSet.arena η X.memory).slots :=
    h.arena_eq ▸ h.used_le
  cases op with
  | create n =>
    refine h.adding (h.arena_eq ▸ hL.create hused n) fun v hv => ?_
    exact VersionSet.used_le_of_create hv h.used_le
  | copy i =>
    refine h.withSet fun s S hs hS hholds => ?_
    refine h.adding (h.arena_eq ▸ hL.copy hused hholds) fun v hv => ?_
    exact VersionSet.used_le_of_copy hv h.used_le
  | insert i v =>
    refine h.withSet fun s S hs hS hholds => ?_
    have hcap := hL.capacity_eq hholds
    rw [SharedSet.insert_eq, SharedSet.insert_eq]
    exact h.replacing_checked hL hs hS (by rw [hcap]; rfl) (by rw [hcap]; rfl) (hL.add hholds)
  | erase i v =>
    refine h.withSet fun s S hs hS hholds => ?_
    have hcap := hL.capacity_eq hholds
    rw [SharedSet.erase_eq, SharedSet.erase_eq]
    exact h.replacing_checked hL hs hS (by rw [hcap]; rfl) (by rw [hcap]; rfl) (hL.remove hholds)
  | push i v =>
    refine h.withSet fun s S hs hS hholds => ?_
    obtain ⟨hv, hord⟩ := hop s hs
    rw [hL.capacity_eq hholds] at hv
    rw [hL.toList_eq hholds] at hord
    exact h.replacing hL hs hS (hL.push hholds hv hord)
  | clear i => exact h.withSet fun s S hs hS hholds => h.replacing hL hs hS (hL.clear hholds)
  | fill i => exact h.withSet fun s S hs hS hholds => h.replacing hL hs hS (hL.fill hholds)
  | invert i => exact h.withSet fun s S hs hS hholds => h.replacing hL hs hS (hL.invert hholds)
  | union i j =>
    refine h.withSets fun s S t T hs hS ht hT hholds hholds' => ?_
    have hcap := hL.capacity_eq hholds
    have hcap' := hL.capacity_eq hholds'
    rw [SharedSet.union_eq, SharedSet.union_eq]
    exact h.replacing_checked hL hs hS (by rw [hcap, hcap']; rfl) (by rw [hcap, hcap']; rfl)
      (hL.unite hholds hholds' (h.apart hop hs ht))
  | diff i j =>
    refine h.withSets fun s S t T hs hS ht hT hholds hholds' => ?_
    have hcap := hL.capacity_eq hholds
    have hcap' := hL.capacity_eq hholds'
    rw [SharedSet.diff_eq, SharedSet.diff_eq]
    exact h.replacing_checked hL hs hS (by rw [hcap, hcap']; rfl) (by rw [hcap, hcap']; rfl)
      (hL.subtract hholds hholds' (h.apart hop hs ht))
  | copyInto i j =>
    refine h.withSets fun s S t T hs hS ht hT hholds hholds' => ?_
    have hcap := hL.capacity_eq hholds
    have hcap' := hL.capacity_eq hholds'
    rw [SharedSet.copyInto_eq, SharedSet.copyInto_eq]
    exact h.replacing_checked hL ht hT (by rw [hcap, hcap']; rfl) (by rw [hcap, hcap']; rfl)
      (hL.copyOnto hholds hholds' (h.apart hop hs ht))
  | retain i keep =>
    refine h.withSet fun s S hs hS hholds => ?_
    obtain ⟨hupdates, hfailure⟩ := hL.retain keep hholds
    obtain ⟨hnext, -⟩ := h.replacing (ε := ε) hL hs hS hupdates
    exact ⟨hnext, congrArg (fun e : Option ε => e.elim SetAnswer.done SetAnswer.stopped) hfailure⟩

theorem reports_eq (hL : L.Lawful) (h : Represents L X Y) : X.reports = Y.reports := by
  refine List.ext_getElem? fun i => ?_
  have hrel := h.holds i
  rw [reports, reports, List.getElem?_map, List.getElem?_map]
  generalize X.handles[i]? = s, Y.handles[i]? = S at hrel
  cases hrel with
  | none => rfl
  | some hholds =>
    have hhas := funext (hL.contains_eq hholds)
    rw [Option.map_some, Option.map_some, report, report, hL.capacity_eq hholds,
      hL.size_eq hholds, hL.first_eq hholds, hL.toList_eq hholds, hhas]
    rfl

/-- A run over handles answers and shows what the run over their values does. -/
theorem trace_eq (hL : L.Lawful) (h : Represents L X Y) {ops : List (SetOp ε)}
    (hops : X.AllowsAll ops) : X.trace ops = Y.trace ops := by
  induction ops generalizing X Y with
  | nil => rfl
  | cons op ops ih =>
    obtain ⟨hop, hrest⟩ := hops
    obtain ⟨hnext, hanswer⟩ := h.step hL hop
    rw [trace, trace, hanswer, hnext.reports_eq hL, ih hnext hrest]

end Represents

end Sets

end CardSearch
