import CardSearch.Evaluation.Memory
import CardSearch.Proofs.Evaluation.Faults
import CardSearch.Proofs.VersionSet.Inline
import CardSearch.Proofs.VersionSet.SlotThinning
import CardSearch.Proofs.VersionSet.WordMembers

/-!
# Evaluation in memory finds what evaluation over values finds

Sets in memory stand side by side, so narrowing one of them down leaves the others as they are. Each
operation on a handle does what the same operation does on the value that the handle holds, and takes
as many slots. So an evaluation in memory goes as the one over values, up to the error with which one
of them fails, and whatever the cells held before.
-/

namespace CardSearch

variable {η μ σ α β : Type}

private theorem perm_ends {a b c : α} {l : List α} : (a :: b :: c :: l).Perm (c :: b :: a :: l) :=
  ((List.Perm.swap b a _).trans (.cons b (.swap c a l))).trans (.swap c b _)

namespace Layout

/-- Handles hold values in ranges of which no two meet. -/
structure SideBySide (L : Layout η μ σ) (m : μ) (sets : List (η × σ)) : Prop where
  holds {s : η} {S : σ} : (s, S) ∈ sets → L.Holds m s S
  apart : sets.Pairwise fun p q => (L.region p.1).Apart (L.region q.1)

namespace SideBySide

variable {L : Layout η μ σ} {m : μ} {sets sets' : List (η × σ)} {s : η} {S V : σ}

private theorem perm (h : L.SideBySide m sets) (hperm : sets.Perm sets') :
    L.SideBySide m sets' where
  holds hmem := h.holds (hperm.mem_iff.2 hmem)
  apart := (hperm.pairwise_iff fun hapart => hapart.symm).1 h.apart

private theorem sublist (h : L.SideBySide m sets) (hsub : sets'.Sublist sets) :
    L.SideBySide m sets' where
  holds hmem := h.holds (hsub.subset hmem)
  apart := h.apart.sublist hsub

private theorem pair {t : η} {T : σ} {rest : List (η × σ)}
    (h : L.SideBySide m ((s, S) :: (t, T) :: rest)) :
    L.Holds m s S ∧ L.Holds m t T ∧ (L.region s).Apart (L.region t) :=
  ⟨h.holds List.mem_cons_self, h.holds (List.mem_cons_of_mem _ List.mem_cons_self),
    (List.pairwise_cons.1 h.apart).1 _ List.mem_cons_self⟩

variable [SharedSet η μ]

private theorem added {r : η × μ} {value : σ × Arena} (h : L.SideBySide m sets)
    (hr : L.Makes m r value) : L.SideBySide r.2 ((r.1, value.1) :: sets) where
  holds {t T} hmem := by
    rcases List.mem_cons.1 hmem with heq | hmem
    · cases heq
      exact hr.holds
    · exact (hr.others (h.holds hmem)).2
  apart := List.pairwise_cons.2
    ⟨fun _ hmem => (hr.others (h.holds hmem)).1.symm, h.apart⟩

/-- The range of the changed handle is the one that it had, which no other one meets. -/
private theorem updated [VersionSet σ] (hL : L.Lawful) {r : η × μ}
    (h : L.SideBySide m ((s, S) :: sets)) (hr : L.Updates m s r V) :
    L.SideBySide r.2 ((r.1, V) :: sets) := by
  obtain ⟨hfirst, hrest⟩ := List.pairwise_cons.1 h.apart
  refine ⟨fun {t T} hmem => ?_, List.pairwise_cons.2 ⟨fun p hp => ?_, hrest⟩⟩
  · rcases List.mem_cons.1 hmem with heq | hmem
    · cases heq
      exact hr.holds
    · exact hL.holds_of_changed hr.changed (hfirst _ hmem).symm
        (h.holds (List.mem_cons_of_mem _ hmem))
  · rw [hr.region_eq]
    exact hfirst p hp

end SideBySide

end Layout

namespace MemoryM

private theorem run_attempt_of_ok {op : μ → Except SetError (η × μ)} {x : MemoryState μ}
    {r : η × μ} (h : op x.memory = .ok r) :
    (attempt op).run x = .ok r.1 { x with memory := r.2 } := by
  simp only [attempt, EStateM.run_bind, EStateM.run_get, h]
  rfl

private theorem run_attempt_of_error {op : μ → Except SetError (η × μ)} {x : MemoryState μ}
    {e : SetError} (h : op x.memory = .error e) :
    (attempt op).run x = .error (.set e) x := by
  simp only [attempt, EStateM.run_bind, EStateM.run_get, h]
  rfl

section Simulation

variable [SharedSet η μ]

/-- A state in memory has as much room left as one over values, and the same subsets are missing. -/
structure InStep (η : Type) [SharedSet η μ] (x : MemoryState μ) (y : EvalState) : Prop where
  arena_eq : SharedSet.arena η x.memory = y.arena
  used_le : y.arena.used ≤ y.arena.slots
  missing_eq : x.missing = y.missing

inductive Outcome (η : Type) [SharedSet η μ] (Q : μ → α → β → Prop) :
    EStateM.Result EvalCause (MemoryState μ) α → EStateM.Result EvalCause EvalState β → Prop
  | ok {a : α} {b : β} {x : MemoryState μ} {y : EvalState} (inStep : InStep η x y)
      (post : Q x.memory a b) : Outcome η Q (.ok a x) (.ok b y)
  | error (cause : EvalCause) {x : MemoryState μ} {y : EvalState} (inStep : InStep η x y) :
      Outcome η Q (.error cause x) (.error cause y)

/-- From a memory with a property, steps in memory end as those over values do: well, with another
property of the memory and of both results, or with the same failure. -/
def Simulates (η : Type) [SharedSet η μ] (P : μ → Prop) (x : MemoryM μ α) (y : EvalM β)
    (Q : μ → α → β → Prop) : Prop :=
  ∀ s t, InStep η s t → P s.memory → Outcome η Q (x.run s) (y.run t)

variable {P P' : μ → Prop} {Q Q' : μ → α → β → Prop} {x : MemoryM μ α} {y : EvalM β}

private theorem simulates_pure {a : α} {b : β} (h : ∀ m, P m → Q m a b) :
    Simulates η P (pure a) (pure b) Q :=
  fun _ _ hstep hP => .ok hstep (h _ hP)

private theorem simulates_throw (cause : EvalCause) : Simulates η P (throw cause) (throw cause) Q :=
  fun _ _ hstep _ => .error cause hstep

private theorem Simulates.bind {α' β' : Type} {f : α → MemoryM μ α'} {g : β → EvalM β'}
    {R : μ → α' → β' → Prop} (h : Simulates η P x y Q)
    (hf : ∀ a b, Simulates η (fun m => Q m a b) (f a) (g b) R) :
    Simulates η P (x >>= f) (y >>= g) R := by
  intro s t hstep hP
  have houtcome := h s t hstep hP
  simp only [EStateM.run, Bind.bind, EStateM.bind] at houtcome ⊢
  generalize x s = r at houtcome ⊢
  generalize y t = r' at houtcome ⊢
  cases houtcome with
  | ok hstep' hQ => exact hf _ _ _ _ hstep' hQ
  | error cause hstep' => exact .error cause hstep'

/-- A step in memory that nothing answers to over values. -/
private theorem Simulates.bind_left {α' β' : Type} {f : α → MemoryM μ α'} {b : β} {z : EvalM β'}
    {R : μ → α' → β' → Prop} (h : Simulates η P x (pure b) Q)
    (hf : ∀ a, Simulates η (fun m => Q m a b) (f a) z R) : Simulates η P (x >>= f) z R := by
  intro s t hstep hP
  have houtcome := h s t hstep hP
  simp only [EStateM.run, Bind.bind, EStateM.bind] at houtcome ⊢
  generalize x s = r at houtcome ⊢
  cases houtcome with
  | ok hstep' hQ => exact hf _ _ _ hstep' hQ

private theorem Simulates.pre (h : Simulates η P x y Q) (hP : ∀ m, P' m → P m) :
    Simulates η P' x y Q :=
  fun s t hstep hP' => h s t hstep (hP _ hP')

private theorem Simulates.post (h : Simulates η P x y Q) (hQ : ∀ m a b, Q m a b → Q' m a b) :
    Simulates η P x y Q' := by
  intro s t hstep hP
  have houtcome := h s t hstep hP
  generalize x.run s = r, y.run t = r' at houtcome ⊢
  cases houtcome with
  | ok hstep' hpost => exact .ok hstep' (hQ _ _ _ hpost)
  | error cause hstep' => exact .error cause hstep'

private theorem simulates_of_pre (h : ∀ m, P m → Simulates η P x y Q) : Simulates η P x y Q :=
  fun s t hstep hP => h _ hP s t hstep hP

private theorem simulates_noteMissing (id : String) :
    Simulates η P (noteMissing id) (EvalM.noteMissing id) fun m _ _ => P m :=
  fun _ _ hstep hP => .ok ⟨hstep.arena_eq, hstep.used_le, congrArg (·.push id) hstep.missing_eq⟩ hP

end Simulation

open VersionSet

section Narrowing

variable [SharedSet η μ] {L : Layout η μ σ} {s : η} {S V : σ} {sets rest : List (η × σ)}

/-- Making a set takes the same slots as it does over values, or fails alike. -/
private theorem simulates_make {op : μ → Except SetError (η × μ)}
    {make : Arena → Except SetError (σ × Arena)} {C : σ → Prop}
    (hop : ∀ m, (SharedSet.arena η m).used ≤ (SharedSet.arena η m).slots → L.SideBySide m sets →
      L.Agrees m (op m) (make (SharedSet.arena η m)))
    (hused : ∀ {arena made}, make arena = .ok made → arena.used ≤ arena.slots →
      made.2.used ≤ made.2.slots)
    (hC : ∀ {arena made}, make arena = .ok made → C made.1) :
    Simulates η (L.SideBySide · sets) (attempt op) (EvalM.ofArena make) fun m t T =>
      C T ∧ L.SideBySide m ((t, T) :: sets) := by
  intro x y hstep hP
  have hagrees := hop x.memory (hstep.arena_eq ▸ hstep.used_le) hP
  rw [hstep.arena_eq] at hagrees
  generalize hmade : make y.arena = value at hagrees
  generalize hr : op x.memory = r at hagrees
  cases hagrees with
  | error e =>
    rw [run_attempt_of_error hr, EvalM.run_ofArena_of_error hmade]
    exact .error _ hstep
  | ok hmakes =>
    rw [run_attempt_of_ok hr, EvalM.run_ofArena_of_ok hmade]
    exact .ok ⟨hmakes.arena_eq, hused hmade hstep.used_le, hstep.missing_eq⟩
      ⟨hC hmade, hP.added hmakes⟩

variable [VersionSet σ]

/-- An operation that changes the first of the sets to a value leaves the others. -/
private theorem simulates_update (hL : L.Lawful) {op : μ → Except SetError (η × μ)}
    (hop : ∀ m, L.SideBySide m ((s, S) :: rest) → ∃ r, op m = .ok r ∧ L.Updates m s r V) :
    Simulates η (L.SideBySide · ((s, S) :: rest)) (attempt op) (pure V) fun m t T =>
      T = V ∧ L.SideBySide m ((t, T) :: rest) := by
  intro x y hstep hP
  obtain ⟨r, hr, hupdates⟩ := hop x.memory hP
  rw [run_attempt_of_ok hr]
  exact .ok ⟨(hL.arena_eq hupdates.changed).trans hstep.arena_eq, hstep.used_le, hstep.missing_eq⟩
    ⟨rfl, hP.updated hL hupdates⟩

private theorem simulates_clear (hL : L.Lawful) :
    Simulates η (L.SideBySide · ((s, S) :: rest)) (MemoryM.clear s)
      (pure (VersionSet.clear S)) fun m t T =>
      T = VersionSet.clear S ∧ L.SideBySide m ((t, T) :: rest) :=
  simulates_update hL fun _ h => ⟨_, rfl, hL.clear (h.holds List.mem_cons_self)⟩

private theorem simulates_copy (hL : L.Lawful) (hmem : (s, S) ∈ sets) :
    Simulates η (L.SideBySide · sets) (attempt fun m => SharedSet.copy m s)
      (EvalM.ofArena fun arena => copy arena S) fun m t T =>
      T = S ∧ L.SideBySide m ((t, T) :: sets) :=
  simulates_make (fun _ hused h => hL.copy hused (h.holds hmem)) used_le_of_copy eq_of_copy

section Pairs

variable {t : η} {T : σ}

private theorem simulates_copyInto (hL : L.Lawful) (hcap : capacity S = capacity T) :
    Simulates η (L.SideBySide · ((t, T) :: (s, S) :: rest))
      (attempt fun m => SharedSet.copyInto m s t) (pure S) fun m u U =>
      U = S ∧ L.SideBySide m ((u, U) :: (s, S) :: rest) := by
  refine simulates_update hL fun m h => ?_
  obtain ⟨ht, hs, hapart⟩ := h.pair
  rw [SharedSet.copyInto_eq, hL.capacity_eq hs, hL.capacity_eq ht, if_pos hcap]
  exact ⟨_, rfl, hL.copyOnto hs ht hapart.symm hcap⟩

private theorem simulates_union (hL : L.Lawful) (hcap : capacity S = capacity T) :
    Simulates η (L.SideBySide · ((s, S) :: (t, T) :: rest))
      (attempt fun m => SharedSet.union m s t) (EvalM.ofSet (union S T)) fun m u U =>
      U = unite S T ∧ L.SideBySide m ((u, U) :: (t, T) :: rest) := by
  rw [union_eq, if_pos hcap]
  refine simulates_update hL fun m h => ?_
  obtain ⟨hs, ht, hapart⟩ := h.pair
  rw [SharedSet.union_eq, hL.capacity_eq hs, hL.capacity_eq ht, if_pos hcap]
  exact ⟨_, rfl, hL.unite hs ht hapart hcap⟩

private theorem simulates_diff (hL : L.Lawful) (hcap : capacity S = capacity T) :
    Simulates η (L.SideBySide · ((s, S) :: (t, T) :: rest))
      (attempt fun m => SharedSet.diff m s t) (EvalM.ofSet (diff S T)) fun m u U =>
      U = subtract S T ∧ L.SideBySide m ((u, U) :: (t, T) :: rest) := by
  rw [diff_eq, if_pos hcap]
  refine simulates_update hL fun m h => ?_
  obtain ⟨hs, ht, hapart⟩ := h.pair
  rw [SharedSet.diff_eq, hL.capacity_eq hs, hL.capacity_eq ht, if_pos hcap]
  exact ⟨_, rfl, hL.subtract hs ht hapart hcap⟩

end Pairs

/-- Narrowing a handle goes as narrowing its value does, and leaves all other sets. -/
def Narrows (L : Layout η μ σ) (f : η → MemoryM μ η) (g : σ → EvalM σ) : Prop :=
  ∀ s S rest, Simulates η (L.SideBySide · ((s, S) :: rest)) (f s) (g S) fun m t T =>
    capacity T = capacity S ∧ L.SideBySide m ((t, T) :: rest)

variable {test : Leaf → Nat → Except EvalCause Bool}
  {subset : String → η → MemoryM μ η} {subset' : String → σ → EvalM σ}

private theorem narrows_narrowAll (hL : L.Lawful) {cs : List Condition}
    (ih : ∀ c ∈ cs, Narrows L (narrow test subset c) (CardSearch.narrow test subset' c)) :
    Narrows L (fun s => narrowAll test subset s cs)
      fun S => CardSearch.narrowAll test subset' S cs := by
  intro s S rest
  dsimp only
  induction cs generalizing s S with
  | nil =>
    rw [narrowAll, CardSearch.narrowAll]
    exact simulates_pure fun _ h => ⟨rfl, h⟩
  | cons c cs ihcs =>
    rw [narrowAll, CardSearch.narrowAll]
    refine (ih c List.mem_cons_self s S rest).bind fun t T => simulates_of_pre fun m h => ?_
    rw [isEmpty, hL.size_eq (h.2.holds List.mem_cons_self)]
    split
    · exact simulates_pure fun _ h => h
    · refine ((ihcs fun d hd => ih d (List.mem_cons_of_mem _ hd)) t T).pre (fun _ h => h.2) |>.post
        fun _ _ _ hrest => ⟨hrest.1.trans h.1, hrest.2⟩

open LawfulVersionSet

variable [LawfulVersionSet σ]

private theorem narrows_clear (hL : L.Lawful) :
    Narrows L MemoryM.clear fun S => pure (VersionSet.clear S) :=
  fun _ S _ => (simulates_clear hL).post fun _ _ _ h => ⟨h.1 ▸ capacity_clear S, h.2⟩

private theorem narrows_narrowLeaf (hL : L.Lawful) (l : Leaf) :
    Narrows L (narrowLeaf test l) (CardSearch.narrowLeaf test l) := by
  intro s S rest
  by_cases hper : l.property.isPerVersion = true
  · intro x y hstep hP
    obtain ⟨hupdates, hfailure⟩ := hL.retain (test l) (hP.holds List.mem_cons_self)
    have hkept := hP.updated hL hupdates
    have hcap := capacity_retain (test l) S
    have hstep' : InStep η { x with memory := (SharedSet.retain (test l) x.memory s).1.2 } y :=
      ⟨(hL.arena_eq hupdates.changed).trans hstep.arena_eq, hstep.used_le, hstep.missing_eq⟩
    cases hr : SharedSet.retain (test l) x.memory s with | mk r failure =>
    cases hr' : VersionSet.retain (test l) S with | mk T failure' =>
    rw [hr] at hkept hfailure hstep'
    rw [hr'] at hkept hfailure hcap
    obtain rfl : failure = failure' := hfailure
    cases failure with
    | none =>
      simp only [narrowLeaf, CardSearch.narrowLeaf, hper, if_true, retain, EStateM.run_bind,
        EStateM.run_get, hr, hr']
      exact .ok hstep' ⟨hcap, hkept⟩
    | some cause =>
      simp only [narrowLeaf, CardSearch.narrowLeaf, hper, if_true, retain, EStateM.run_bind,
        EStateM.run_get, hr, hr']
      exact .error cause hstep'
  · rw [narrowLeaf, CardSearch.narrowLeaf, if_neg hper, if_neg hper]
    cases test l 0 with
    | error e => exact simulates_throw e
    | ok b =>
      cases b with
      | true => exact simulates_pure fun _ h => ⟨rfl, h⟩
      | false => exact narrows_clear hL s S rest

/-- The branch starts anew from the candidates for each condition, whatever the one before left. -/
private theorem simulates_narrowAny (hL : L.Lawful) {cs : List Condition}
    (ih : ∀ c ∈ cs, Narrows L (narrow test subset c) (CardSearch.narrow test subset' c))
    {candidates branch found : η} {C B F : σ} (hB : capacity C = capacity B)
    (hF : capacity F = capacity C) :
    Simulates η (L.SideBySide · ((found, F) :: (candidates, C) :: (branch, B) :: rest))
      (narrowAny test subset candidates branch found cs)
      (CardSearch.narrowAny test subset' C F cs) fun m t T =>
      capacity T = capacity C ∧ L.SideBySide m ((t, T) :: rest) := by
  have hends {m : μ} {F B : σ} {found branch : η}
      (h : L.SideBySide m ((found, F) :: (candidates, C) :: (branch, B) :: rest)) :
      L.SideBySide m ((found, F) :: rest) :=
    h.sublist (.cons_cons _ ((List.sublist_cons_self _ _).trans (List.sublist_cons_self _ _)))
  induction cs generalizing branch found B F with
  | nil =>
    rw [narrowAny, CardSearch.narrowAny]
    exact simulates_pure fun m h => ⟨hF, hends h⟩
  | cons c cs ihcs =>
    rw [narrowAny, CardSearch.narrowAny]
    refine ((simulates_copyInto hL hB).pre fun m h => h.perm perm_ends).bind_left fun branch => ?_
    refine ((ih c List.mem_cons_self branch C _).pre fun _ h => h.2).bind fun branch M => ?_
    refine simulates_of_pre fun _ hbranch => ?_
    obtain ⟨hM, -⟩ := hbranch
    have hcap : capacity F = capacity M := hF.trans hM.symm
    have hfront (m : μ) (h : L.SideBySide m ((branch, M) :: (candidates, C) :: (found, F) :: rest)) :
        L.SideBySide m ((found, F) :: (branch, M) :: (candidates, C) :: rest) :=
      (h.perm perm_ends).perm (.cons _ (.swap _ _ _))
    refine ((simulates_union hL hcap).pre fun m h => hfront m h.2).bind fun found U => ?_
    refine simulates_of_pre fun m hunion => ?_
    obtain ⟨hU, h⟩ := hunion
    have hUC : capacity U = capacity C := by rw [hU, capacity_unite, hF]
    rw [hL.size_eq (h.holds List.mem_cons_self),
      hL.size_eq (h.holds (List.mem_cons_of_mem _ (List.mem_cons_of_mem _ List.mem_cons_self)))]
    have hperm (m : μ) (h : L.SideBySide m ((found, U) :: (branch, M) :: (candidates, C) :: rest)) :
        L.SideBySide m ((found, U) :: (candidates, C) :: (branch, M) :: rest) :=
      h.perm (.cons _ (.swap _ _ _))
    split
    · exact simulates_pure fun m h => ⟨hUC, hends (hperm m h.2)⟩
    · exact (ihcs (fun d hd => ih d (List.mem_cons_of_mem _ hd)) hM.symm hUC).pre
        fun m h => hperm m h.2

/-- Narrowing by a condition goes as it does over values, if narrowing by subsets does. -/
private theorem narrows_narrow (hL : L.Lawful) (hsubset : ∀ id, Narrows L (subset id) (subset' id))
    (c : Condition) : Narrows L (narrow test subset c) (CardSearch.narrow test subset' c) := by
  induction c with
  | const b =>
    intro s S rest
    cases b with
    | true =>
      rw [narrow, CardSearch.narrow]
      exact simulates_pure fun _ h => ⟨rfl, h⟩
    | false =>
      rw [narrow, CardSearch.narrow]
      exact narrows_clear hL s S rest
  | leaf l =>
    intro s S rest
    rw [narrow, CardSearch.narrow]
    exact narrows_narrowLeaf hL l s S rest
  | subset id =>
    intro s S rest
    rw [narrow, CardSearch.narrow]
    exact hsubset id s S rest
  | not c ih =>
    intro s S rest
    rw [narrow, CardSearch.narrow]
    refine (simulates_copy hL List.mem_cons_self).bind fun all A => simulates_of_pre fun _ hA => ?_
    obtain ⟨rfl, -⟩ := hA
    refine ((ih all A _).pre fun _ h => h.2).bind fun matching M => ?_
    refine simulates_of_pre fun _ hM => ?_
    refine ((simulates_diff hL hM.1.symm).pre fun m h => h.2.perm (.swap _ _ _)).post
      fun _ _ _ h => ⟨h.1 ▸ capacity_subtract .., h.2.sublist (.cons_cons _ ?_)⟩
    exact List.sublist_cons_self _ _
  | any cs ih =>
    intro s S rest
    rw [narrow, CardSearch.narrow]
    refine (simulates_copy hL List.mem_cons_self).bind fun candidates C => ?_
    refine simulates_of_pre fun _ hC => ?_
    obtain ⟨rfl, -⟩ := hC
    refine ((simulates_copy hL (List.mem_cons_of_mem _ List.mem_cons_self)).pre
      fun _ h => h.2).bind fun branch B => simulates_of_pre fun _ hB => ?_
    obtain ⟨rfl, -⟩ := hB
    refine ((simulates_clear hL).pre fun m h => h.2.perm perm_ends).bind_left fun s => ?_
    exact (simulates_narrowAny hL ih rfl (capacity_clear _)).pre fun m h => h.1 ▸ h.2
  | all cs ih =>
    intro s S rest
    rw [narrow, CardSearch.narrow]
    exact narrows_narrowAll hL ih s S rest

private theorem narrows_missing (hL : L.Lawful) (id : String) :
    Narrows L (fun s => do noteMissing id; MemoryM.clear s) fun S => do
      EvalM.noteMissing id
      return VersionSet.clear S :=
  fun s S rest => (simulates_noteMissing id).bind fun _ _ => narrows_clear hL s S rest

private theorem narrows_narrowSubset (hL : L.Lawful) (store : SubsetStore) (depth : Nat)
    (id : String) :
    Narrows L (narrowSubset test store depth id) (CardSearch.narrowSubset test store depth id) := by
  induction depth generalizing id with
  | zero =>
    intro s S rest
    cases hget : store.get? id with
    | none =>
      simpa only [narrowSubset, CardSearch.narrowSubset, hget] using narrows_missing hL id s S rest
    | some subset =>
      simpa only [narrowSubset, CardSearch.narrowSubset, hget] using narrows_clear hL s S rest
  | succ depth ih =>
    intro s S rest
    cases hget : store.get? id with
    | none =>
      simpa only [narrowSubset, CardSearch.narrowSubset, hget] using narrows_missing hL id s S rest
    | some subset =>
      simpa only [narrowSubset, CardSearch.narrowSubset, hget]
        using narrows_narrow hL ih subset.query.condition s S rest

private theorem simulates_narrowAllVersions (hL : L.Lawful) (store : SubsetStore) (c : Condition)
    (versions : Nat) :
    Simulates η (L.SideBySide · []) (narrowAllVersions test store c versions : MemoryM μ η)
      (CardSearch.narrowAllVersions test store c versions) fun m t T =>
      L.SideBySide m [(t, T)] := by
  unfold narrowAllVersions CardSearch.narrowAllVersions
  have hcreate : Simulates η (L.SideBySide · []) (attempt fun m => SharedSet.create m versions)
      (EvalM.ofArena fun arena => create arena versions) fun m s S =>
      True ∧ L.SideBySide m [(s, S)] :=
    simulates_make (fun m hused _ => hL.create hused versions) used_le_of_create fun _ => trivial
  refine hcreate.bind fun s S => ?_
  have hfill : Simulates η (L.SideBySide · [(s, S)]) (attempt fun m => .ok (SharedSet.fill m s))
      (pure (fill S)) fun m t T => T = fill S ∧ L.SideBySide m [(t, T)] :=
    simulates_update hL fun m h => ⟨_, rfl, hL.fill (h.holds List.mem_cons_self)⟩
  refine (hfill.pre fun m h => h.2).bind_left fun s => ?_
  exact ((narrows_narrow hL (narrows_narrowSubset hL store _) c s _ []).pre fun _ h => h.2).post
    fun _ _ _ h => h.2

/-- The versions that are found in memory are those found over values. -/
theorem simulates_versionsIn (hL : L.Lawful) (ctx : EvalContext) (record : Nat) :
    Simulates η (L.SideBySide · []) (versionsIn η ctx record)
      (Evaluator.versionsIn σ ctx record) fun _ a b => a = b := by
  unfold versionsIn Evaluator.versionsIn
  refine (simulates_narrowAllVersions hL ctx.subsets ctx.condition _).bind fun s S => ?_
  exact fun x y hstep h => .ok hstep (hL.toList_eq (h.holds List.mem_cons_self))

end Narrowing

end MemoryM

namespace MemoryEvaluator

variable [SharedSet η μ] [VersionSet σ] [LawfulVersionSet σ] {L : Layout η μ σ}

/-- With no set in memory yet, the outcome is that over values, whatever the cells hold. -/
private theorem run_versionsIn (hL : L.Lawful) (ctx : EvalContext) (record : Nat) (memory : μ)
    (hused : (SharedSet.arena η memory).used ≤ (SharedSet.arena η memory).slots) :
    (run memory (MemoryM.versionsIn η ctx record)).1 =
        (Evaluator.run (SharedSet.arena η memory) (Evaluator.versionsIn σ ctx record)).1 ∧
      MemoryM.InStep η (run memory (MemoryM.versionsIn η ctx record)).2
        (Evaluator.run (SharedSet.arena η memory) (Evaluator.versionsIn σ ctx record)).2 := by
  have hsets : L.SideBySide memory [] := ⟨fun h => absurd h List.not_mem_nil, .nil⟩
  have houtcome := MemoryM.simulates_versionsIn hL ctx record { memory }
    { arena := SharedSet.arena η memory } ⟨rfl, hused, rfl⟩ hsets
  unfold run Evaluator.run
  generalize EStateM.run (MemoryM.versionsIn η ctx record) { memory } = r at houtcome ⊢
  generalize EStateM.run (Evaluator.versionsIn σ ctx record) _ = r' at houtcome ⊢
  cases houtcome with
  | ok hstep heq => exact ⟨congrArg Except.ok heq, hstep⟩
  | error cause hstep => exact ⟨rfl, hstep⟩

def arenas (ev : MemoryEvaluator) : Evaluator where
  selection := ev.selection
  wordsArena := ev.words.arena
  sortedArena := ev.slots.arena

/-- A record is evaluated in memory as it is over values: the same versions are found, or the
evaluation fails in the same way, the same subsets are missing, and the same slots are taken. -/
theorem evaluate_eq (ev : MemoryEvaluator) (ctx : EvalContext) (record : Nat) :
    (ev.evaluate ctx record).versions = (ev.arenas.evaluate ctx record).versions ∧
      (ev.evaluate ctx record).missing = (ev.arenas.evaluate ctx record).missing ∧
      (ev.evaluate ctx record).evaluator.arenas =
        (ev.arenas.evaluate ctx record).evaluator := by
  cases hchoose : ev.selection.choose (ctx.versionCount record) with
  | word =>
    obtain ⟨hversions, hstep⟩ := run_versionsIn InlineSet.lawful_layout ctx record ()
      (Nat.le_refl 0)
    simp only [evaluate, Evaluator.evaluate, arenas, hchoose]
    exact ⟨hversions, hstep.missing_eq, trivial⟩
  | words =>
    obtain ⟨hversions, hstep⟩ := run_versionsIn WordRange.lawful_layout ctx record
      ev.words.reset (Nat.zero_le _)
    simp only [evaluate, Evaluator.evaluate, arenas, hchoose]
    exact ⟨hversions, hstep.missing_eq, congrArg (Evaluator.mk _ · _) hstep.arena_eq⟩
  | sorted =>
    obtain ⟨hversions, hstep⟩ := run_versionsIn SlotRange.lawful_layout ctx record
      ev.slots.reset (Nat.zero_le _)
    simp only [evaluate, Evaluator.evaluate, arenas, hchoose]
    exact ⟨hversions, hstep.missing_eq, congrArg (Evaluator.mk _ _) hstep.arena_eq⟩

theorem scanFrom_eq (ctx : EvalContext) (ev : MemoryEvaluator) (done : Array (Option Nat))
    (missing : Array String) (n : Nat) :
    scanFrom ctx ev done missing n = Scan.scanFrom ctx ev.arenas done missing n := by
  induction n generalizing ev done missing with
  | zero => rfl
  | succ n ih =>
    obtain ⟨hversions, hmissing, harenas⟩ := ev.evaluate_eq ctx done.size
    cases hfound : (ev.arenas.evaluate ctx done.size).versions with
    | error cause => simp only [scanFrom, Scan.scanFrom, hversions, hmissing, hfound]
    | ok versions => simp only [scanFrom, Scan.scanFrom, hversions, hmissing, hfound, ih, harenas]

private theorem arenas_new (selection : SetSelection) (bytes : Nat) :
    (new selection bytes).arenas = Evaluator.new selection bytes := by
  simp [arenas, new, Evaluator.new, Memory.arena, Memory.new]

/-- Over a whole catalog, memory that sets share and sets as values lead to the same end. -/
theorem scan_eq (ctx : EvalContext) (selection : SetSelection) (bytes : Nat) :
    scan ctx selection bytes = Scan.all ctx selection bytes := by
  cases hlength : ctx.catalog.length? with
  | none => simp only [scan, Scan.all, hlength]
  | some length =>
    simp only [scan, Scan.all, hlength, scanFrom_eq, arenas_new]

end MemoryEvaluator

end CardSearch
