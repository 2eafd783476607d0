import CardSearch.Proofs.VersionSet.Inline
import CardSearch.Proofs.VersionSet.SlotThinning
import CardSearch.Proofs.VersionSet.WordMembers

/-!
# Runs over sets

Whatever holds the sets, a run that starts when nothing is handed out goes as the one over
mathematical sets: a step answers and shows the same, changes its target only, and nothing at all
if it fails. Kinds of sets differ only in how much room they have.
-/

namespace CardSearch

variable {η μ η' μ' σ σ' ε : Type}

/-- The number of the set that a step changes, if it changes one. -/
def SetOp.target? : SetOp ε → Option Nat
  | .create _ | .copy _ => none
  | .insert i _ | .erase i _ | .push i _ | .clear i | .fill i | .invert i | .union i _
  | .diff i _ | .retain i _ => some i
  | .copyInto _ j => some j

/-- Too much was asked for: a capacity beyond the largest one, or more slots than are left. -/
def SetAnswer.LacksRoom : SetAnswer ε → Prop
  | .failed (.capacityExceeded _ _) | .failed (.arenaExhausted _ _) => True
  | _ => False

/-- What is shown is a set of numbers below the capacity, listed in ascending order. -/
structure SetReport.Consistent (r : SetReport) : Prop where
  ascending : r.values.Pairwise (· < ·)
  lt_capacity {v : Nat} : v ∈ r.values → v < r.capacity
  size_eq : r.size = r.values.length
  first_eq : r.first? = r.values.head?
  has_iff (v : Nat) : r.has v = true ↔ v ∈ r.values

/-- What is shown once a question about a member failed: of the members before the one at which it
failed those are gone that were answered with no. -/
def SetReport.StoppedAt (before after : SetReport) (keep : Nat → Except ε Bool) (e : ε) : Prop :=
  ∃ u ∈ before.values, keep u = .error e ∧ (∀ v ∈ before.values, v < u → Answered keep v) ∧
    ∀ v, v ∈ after.values ↔ v ∈ before.values ∧ ¬ (v < u ∧ keep v = .ok false)

namespace Sets

def started (memory : μ) : Sets η μ := { memory := memory }

section Definitions

variable [SharedSet η μ] [SharedSet η' μ'] [VersionSet σ]

def run (sets : Sets η μ) (ops : List (SetOp ε)) : Sets η μ :=
  ops.foldl (fun sets op => (sets.step op).1) sets

/-- No step of a run asks for too much. -/
def HasRoom (sets : Sets η μ) (ops : List (SetOp ε)) : Prop :=
  ∀ answer ∈ sets.trace ops, ¬ answer.1.LacksRoom

/-- A step does what it does on mathematical sets, to its target only and only if it succeeds; a
failing question leaves what its answers up to then leave. -/
structure StepsAs (X : Sets η μ) (Y : Sets (MathSet σ) Arena) (op : SetOp ε) : Prop where
  answer_eq : (X.step op).2 = (Y.step op).2
  reports_eq : (X.step op).1.reports = (Y.step op).1.reports
  consistent : ∀ r ∈ (X.step op).1.reports, r.Consistent
  frame {i : Nat} : i < X.handles.length → op.target? ≠ some i →
    (X.step op).1.reports[i]? = X.reports[i]?
  failed {e : SetError} : (X.step op).2 = .failed e → (X.step op).1.reports = X.reports
  stopped {e : ε} : (X.step op).2 = .stopped e → ∃ i keep before after, op = .retain i keep ∧
    X.reports[i]? = some before ∧ (X.step op).1.reports[i]? = some after ∧
    before.StoppedAt after keep e

/-- Two runs answer and show the same wherever both kinds of sets have room. -/
def AgreeWithRoom (X : Sets η μ) (Y : Sets η' μ') (ops : List (SetOp ε)) : Prop :=
  X.AllowsAll ops → Y.AllowsAll ops → X.HasRoom ops → Y.HasRoom ops → X.trace ops = Y.trace ops

end Definitions

/-- What comes of a step: nothing is changed, a set is added, the target is changed, or a question
stopped the step while it changed the target. -/
inductive Outcome [SharedSet η μ] (X : Sets η μ) (op : SetOp ε) : Sets η μ × SetAnswer ε → Prop
  | missing : X.Outcome op (X, .missing)
  | failed (e : SetError) : X.Outcome op (X, .failed e)
  | added (m : μ) (s : η) (h : op.target? = none) :
    X.Outcome op (⟨m, X.handles ++ [s]⟩, .done)
  | changed (m : μ) (s : η) {i : Nat} (h : op.target? = some i) :
    X.Outcome op (⟨m, X.handles.set i s⟩, .done)
  | stopped (m : μ) {s t : η} {i : Nat} {keep : Nat → Except ε Bool} {e : ε}
    (h : op = .retain i keep) (hs : X.handles[i]? = some s)
    (hkept : SharedSet.retain keep X.memory s = ((t, m), some e)) :
    X.Outcome op (⟨m, X.handles.set i t⟩, .stopped e)

section Outcomes

variable [SharedSet η μ] {X : Sets η μ} {op : SetOp ε}

private theorem Outcome.adding (h : op.target? = none) (r : Except SetError (η × μ)) :
    X.Outcome op (X.adding r) := by
  cases r with
  | error e => exact .failed e
  | ok r => exact .added r.2 r.1 h

private theorem Outcome.replacing {i : Nat} (h : op.target? = some i)
    (r : Except SetError (η × μ)) : X.Outcome op (X.replacing i r) := by
  cases r with
  | error e => exact .failed e
  | ok r => exact .changed r.2 r.1 h

private theorem Outcome.withSet (i : Nat) {next : η → Sets η μ × SetAnswer ε}
    (h : ∀ s, X.handles[i]? = some s → X.Outcome op (next s)) :
    X.Outcome op (X.withSet i next) := by
  unfold Sets.withSet
  split
  · next s hs => exact h s hs
  · exact .missing

theorem outcome_step (X : Sets η μ) (op : SetOp ε) : X.Outcome op (X.step op) := by
  cases op with
  | create => exact .adding rfl _
  | copy => exact .withSet _ fun _ _ => .adding rfl _
  | union | diff | copyInto =>
    exact .withSet _ fun _ _ => .withSet _ fun _ _ => .replacing rfl _
  | retain i keep =>
    refine .withSet _ fun s hs => ?_
    generalize hkept : SharedSet.retain keep X.memory s = kept
    obtain ⟨⟨t, m⟩, _ | e⟩ := kept
    · exact .changed m t rfl
    · exact .stopped m rfl hs hkept
  | _ => exact .withSet _ fun _ _ => .replacing rfl _

theorem step_of_failed {e : SetError} (h : (X.step op).2 = .failed e) : (X.step op).1 = X := by
  have houtcome := X.outcome_step op
  generalize X.step op = next at *
  cases houtcome with
  | missing | failed => rfl
  | added | changed | stopped => cases h

/-- A step leaves the handles of all sets but its target. -/
theorem handles_step {i : Nat} (hi : i < X.handles.length) (htarget : op.target? ≠ some i) :
    (X.step op).1.handles[i]? = X.handles[i]? := by
  have houtcome := X.outcome_step op
  generalize X.step op = next at *
  cases houtcome with
  | missing | failed => rfl
  | added => exact List.getElem?_append_left hi
  | changed _ _ h => exact List.getElem?_set_ne fun heq => htarget (h.trans (congrArg some heq))
  | stopped _ h =>
    subst h
    exact List.getElem?_set_ne fun heq => htarget (congrArg some heq)

end Outcomes

section Values

variable [VersionSet σ]

/-- What values show does not depend on the arena. -/
theorem reports_step {Y : Sets σ Arena} {op : SetOp ε} {i : Nat} (hi : i < Y.handles.length)
    (htarget : op.target? ≠ some i) : (Y.step op).1.reports[i]? = Y.reports[i]? := by
  rw [reports, reports, List.getElem?_map, List.getElem?_map, handles_step hi htarget]
  rfl

variable [LawfulVersionSet σ]

open LawfulVersionSet

private theorem consistent_report (arena : Arena) (S : σ) : (report arena S).Consistent where
  ascending := ascending S
  lt_capacity hv := lt_capacity S hv
  size_eq := LawfulVersionSet.size_eq S
  first_eq := rfl
  has_iff := contains_iff S

private theorem consistent_of_mem_reports {Y : Sets σ Arena} {r : SetReport} (h : r ∈ Y.reports) :
    r.Consistent := by
  obtain ⟨S, -, rfl⟩ := List.mem_map.1 h
  exact consistent_report _ S

/-- What stays when a question failed. -/
theorem stoppedAt_retain {arena : Arena} {S : σ} {keep : Nat → Except ε Bool} {e : ε}
    (h : (VersionSet.retain keep S).2 = some e) :
    (report arena S).StoppedAt (report arena (VersionSet.retain keep S).1) keep e := by
  obtain ⟨u, hu, hfail, hbefore⟩ := (rejected_eq_some_iff (ascending S) e).1 h
  refine ⟨u, hu, hfail, hbefore, fun v => (VersionSet.mem_retain keep S v).trans ?_⟩
  rw [mem_rejected_iff (ascending S)]
  refine and_congr_right fun hv => not_congr ⟨fun ⟨_, hno, hasked⟩ => ⟨?_, hno⟩, ?_⟩
  · -- a rejected value comes before the failure, which is not an answer
    refine Nat.lt_of_not_le fun hle => ?_
    rcases Nat.lt_or_eq_of_le hle with hlt | rfl
    · obtain ⟨b, hb⟩ := hasked u hu hlt
      rw [hfail] at hb
      cases hb
    · rw [hfail] at hno
      cases hno
  · exact fun ⟨hlt, hno⟩ => ⟨hv, hno, fun w hw hwv => hbefore w hw (Nat.lt_trans hwv hlt)⟩

private theorem reports_of_stopped {Y : Sets σ Arena} {op : SetOp ε} {e : ε}
    (h : (Y.step op).2 = .stopped e) : ∃ i keep before after, op = .retain i keep ∧
      Y.reports[i]? = some before ∧ (Y.step op).1.reports[i]? = some after ∧
      before.StoppedAt after keep e := by
  have houtcome := Y.outcome_step op
  generalize Y.step op = next at *
  cases houtcome with
  | missing | failed | added | changed => cases h
  | @stopped m S T i keep e' hop hS hkept =>
    cases h
    obtain ⟨hT, hfailure⟩ := Prod.mk.inj hkept
    obtain ⟨rfl, rfl⟩ := Prod.mk.inj hT
    have hi : i < Y.handles.length := (List.getElem?_eq_some_iff.1 hS).1
    refine ⟨i, keep, report Y.memory S, _, hop, ?_, ?_, stoppedAt_retain hfailure⟩
    · rw [reports, List.getElem?_map, hS]
      rfl
    · rw [reports, List.getElem?_map, List.getElem?_set_self hi]
      rfl

end Values

theorem Represents.started [SharedSet η μ] (L : Layout η μ σ) {m : μ}
    (h : (SharedSet.arena η m).used = 0) :
    Represents L (started m) (started (SharedSet.arena η m)) where
  arena_eq := rfl
  used_le := h ▸ Nat.zero_le _
  holds _ := .none
  apart _ hs := by cases hs

namespace Represents

variable [SharedSet η μ] [VersionSet σ] {L : Layout η μ σ} {X : Sets η μ} {Y : Sets σ Arena}

/-- A step over handles that asks for what it may asks for what it may over values. -/
theorem allows (hL : L.Lawful) (h : Represents L X Y) {op : SetOp ε} (hop : X.Allows op) :
    Y.Allows op := by
  cases op with
  | push i v =>
    intro S hS
    have hrel := h.holds i
    rw [hS] at hrel
    generalize hs : X.handles[i]? = s at hrel
    cases hrel with
    | some hholds =>
      have hv := (hop _ hs).1
      rw [hL.capacity_eq hholds] at hv
      exact ⟨hv, fun hord => by cases hord⟩
  | union | diff | copyInto => exact hop
  | _ => trivial

private theorem allowsAll (hL : L.Lawful) (h : Represents L X Y) {ops : List (SetOp ε)}
    (hops : X.AllowsAll ops) : Y.AllowsAll ops := by
  induction ops generalizing X Y with
  | nil => trivial
  | cons op ops ih => exact ⟨h.allows hL hops.1, ih (h.step hL hops.1).1 hops.2⟩

variable [LawfulVersionSet σ] {Z : Sets (MathSet σ) Arena}

private theorem stepsAs (hL : L.Lawful) (h : Represents L X Y)
    (h' : Represents (MathSet.layout σ) Y Z)
    {op : SetOp ε} (hop : X.Allows op) : StepsAs X Z op := by
  obtain ⟨hnext, hanswer⟩ := h.step hL hop
  obtain ⟨hnext', hanswer'⟩ := h'.step MathSet.lawful_layout (h.allows hL hop)
  have hreports := hnext.reports_eq hL
  have hbefore := h.reports_eq hL
  refine ⟨hanswer.trans hanswer', hreports.trans (hnext'.reports_eq MathSet.lawful_layout), ?_, ?_,
    fun hfailed => congrArg reports (step_of_failed hfailed), fun hstopped => ?_⟩
  · rw [hreports]
    exact fun _ => consistent_of_mem_reports
  · intro i hi htarget
    rw [hreports, hbefore]
    exact reports_step (h.length_eq ▸ hi) htarget
  · rw [hreports, hbefore]
    exact reports_of_stopped (hanswer ▸ hstopped)

theorem stepsAs_run (hL : L.Lawful) (h : Represents L X Y) (h' : Represents (MathSet.layout σ) Y Z)
    {ops : List (SetOp ε)} {op : SetOp ε} (hops : X.AllowsAll (ops ++ [op])) :
    StepsAs (X.run ops) (Z.run ops) op := by
  induction ops generalizing X Y Z with
  | nil => exact h.stepsAs hL h' hops.1
  | cons first ops ih =>
    obtain ⟨hfirst, hrest⟩ := hops
    exact ih (h.step hL hfirst).1 (h'.step MathSet.lawful_layout (h.allows hL hfirst)).1 hrest

end Represents

section Kinds

variable [SharedSet η μ] [VersionSet σ] [LawfulVersionSet σ] {L : Layout η μ σ} {m : μ}
  {ops : List (SetOp ε)} {op : SetOp ε}

theorem stepsAs_of_lawful (hL : L.Lawful) (hm : (SharedSet.arena η m).used = 0)
    (hops : (started m : Sets η μ).AllowsAll (ops ++ [op])) :
    StepsAs ((started m : Sets η μ).run ops)
      ((started (SharedSet.arena η m) : Sets (MathSet σ) Arena).run ops) op :=
  (Represents.started L hm).stepsAs_run hL (.started _ hm) hops

theorem trace_eq_of_lawful (hL : L.Lawful) (hm : (SharedSet.arena η m).used = 0)
    (hops : (started m : Sets η μ).AllowsAll ops) :
    (started m : Sets η μ).trace ops =
      (started (SharedSet.arena η m) : Sets (MathSet σ) Arena).trace ops := by
  have hstart := Represents.started L hm
  have hstart' : Represents (MathSet.layout σ) (started (SharedSet.arena η m)) _ := .started _ hm
  exact (hstart.trace_eq hL hops).trans
    (hstart'.trace_eq MathSet.lawful_layout (hstart.allowsAll hL hops))

end Kinds

/-- Making a set fails for want of room only. -/
inductive Made (S : MathSet σ) : Except SetError (MathSet σ × Arena) → Prop
  | ok (arena : Arena) : Made S (.ok (S, arena))
  | error {e : SetError} (h : ∀ ε : Type, (SetAnswer.failed e : SetAnswer ε).LacksRoom) :
    Made S (.error e)

theorem made_take (S : MathSet σ) (arena : Arena) (count : Nat) :
    Made S ((arena.take count).map (S, ·)) := by
  unfold Arena.take
  split
  · exact .error fun _ => trivial
  · exact .ok _

private theorem made_create [VersionSet σ] (arena : Arena) (n : Nat) :
    Made (⟨n, ∅⟩ : MathSet σ) (VersionSet.create arena n) := by
  by_cases hn : n ≤ VersionSet.largest (MathSet σ)
  · rw [VersionSet.create_eq n arena hn]
    exact made_take _ arena _
  · rw [VersionSet.create_eq_error n arena hn]
    exact .error fun _ => trivial

def recast (S : MathSet σ) : MathSet σ' := ⟨S.capacity, S.members⟩

def Alike (Y : Sets (MathSet σ) Arena) (Z : Sets (MathSet σ') Arena) : Prop :=
  Z.handles = Y.handles.map recast

def GoAlike (p : Sets (MathSet σ) Arena × SetAnswer ε) (q : Sets (MathSet σ') Arena × SetAnswer ε) :
    Prop :=
  ¬ p.2.LacksRoom → ¬ q.2.LacksRoom → Alike p.1 q.1 ∧ p.2 = q.2

namespace Alike

variable {Y : Sets (MathSet σ) Arena} {Z : Sets (MathSet σ') Arena} {i : Nat}

private theorem withSet (h : Alike Y Z) {f : MathSet σ → Sets (MathSet σ) Arena × SetAnswer ε}
    {g : MathSet σ' → Sets (MathSet σ') Arena × SetAnswer ε}
    (hnext : ∀ S, GoAlike (f S) (g (recast S))) : GoAlike (Y.withSet i f) (Z.withSet i g) := by
  unfold Sets.withSet
  rw [show Z.handles = _ from h, List.getElem?_map]
  cases Y.handles[i]? with
  | none => exact fun _ _ => ⟨h, rfl⟩
  | some S => exact hnext S

private theorem adding (h : Alike Y Z) {S : MathSet σ} {r : Except SetError (MathSet σ × Arena)}
    {r' : Except SetError (MathSet σ' × Arena)} (hr : Made S r) (hr' : Made (recast S) r') :
    GoAlike (ε := ε) (Y.adding r) (Z.adding r') := by
  intro hroom hroom'
  cases hr with
  | error hlacks => exact absurd (hlacks ε) hroom
  | ok arena =>
    cases hr' with
    | error hlacks => exact absurd (hlacks ε) hroom'
    | ok arena' =>
      refine ⟨?_, rfl⟩
      change Z.handles ++ [recast S] = (Y.handles ++ [S]).map recast
      rw [show Z.handles = _ from h, List.map_append]
      rfl

theorem replacing (h : Alike Y Z) (S : MathSet σ) (arena arena' : Arena) :
    Alike (Y.replacing (ε := ε) i (.ok (S, arena))).1
      (Z.replacing (ε := ε) i (.ok (recast S, arena'))).1 := by
  change Z.handles.set i (recast S) = (Y.handles.set i S).map recast
  rw [show Z.handles = _ from h, List.map_set]

private theorem replacing_checked (h : Alike Y Z) {p : Prop} [Decidable p] (S : MathSet σ)
    (arena arena' : Arena) (e : SetError) :
    GoAlike (ε := ε) (Y.replacing i (if p then .ok (S, arena) else .error e))
      (Z.replacing i (if p then .ok (recast S, arena') else .error e)) := by
  split
  · exact fun _ _ => ⟨h.replacing S arena arena', rfl⟩
  · exact fun _ _ => ⟨h, rfl⟩

variable [VersionSet σ] [VersionSet σ']

/-- A step does the same to the same sets, unless one of them lacks room. -/
theorem step (h : Alike Y Z) (op : SetOp ε) : GoAlike (Y.step op) (Z.step op) := by
  cases op with
  | create n => exact h.adding (made_create _ n) (made_create _ n)
  | copy i =>
    refine h.withSet fun S => ?_
    change GoAlike (Y.adding (VersionSet.copy Y.memory S)) (Z.adding (VersionSet.copy Z.memory _))
    rw [VersionSet.copy_eq, VersionSet.copy_eq]
    exact h.adding (made_take S _ _) (made_take _ _ _)
  | insert i v =>
    refine h.withSet fun S => ?_
    rw [SharedSet.insert_eq, SharedSet.insert_eq]
    exact h.replacing_checked (VersionSet.add S v) _ _ _
  | erase i v =>
    refine h.withSet fun S => ?_
    rw [SharedSet.erase_eq, SharedSet.erase_eq]
    exact h.replacing_checked (VersionSet.remove S [v]) _ _ _
  | union i j =>
    refine h.withSet fun S => h.withSet fun T => ?_
    rw [SharedSet.union_eq, SharedSet.union_eq]
    exact h.replacing_checked (VersionSet.unite S T) _ _ _
  | diff i j =>
    refine h.withSet fun S => h.withSet fun T => ?_
    rw [SharedSet.diff_eq, SharedSet.diff_eq]
    exact h.replacing_checked (VersionSet.subtract S T) _ _ _
  | copyInto i j =>
    refine h.withSet fun S => h.withSet fun T => ?_
    rw [SharedSet.copyInto_eq, SharedSet.copyInto_eq]
    exact h.replacing_checked S _ _ _
  | push i v => exact h.withSet fun S _ _ => ⟨h.replacing (VersionSet.add S v) _ _, rfl⟩
  | clear i => exact h.withSet fun S _ _ => ⟨h.replacing (VersionSet.clear S) _ _, rfl⟩
  | fill i => exact h.withSet fun S _ _ => ⟨h.replacing (VersionSet.fill S) _ _, rfl⟩
  | invert i => exact h.withSet fun S _ _ => ⟨h.replacing (VersionSet.invert S) _ _, rfl⟩
  | retain i keep =>
    exact h.withSet fun S _ _ => ⟨h.replacing (ε := ε) (VersionSet.retain keep S).1 _ _, rfl⟩

private theorem reports_eq (h : Alike Y Z) : Y.reports = Z.reports := by
  rw [reports, reports, show Z.handles = _ from h, List.map_map]
  rfl

private theorem trace_eq (h : Alike Y Z) {ops : List (SetOp ε)} (hY : Y.HasRoom ops)
    (hZ : Z.HasRoom ops) : Y.trace ops = Z.trace ops := by
  induction ops generalizing Y Z with
  | nil => rfl
  | cons op ops ih =>
    obtain ⟨hY, hrestY⟩ := List.forall_mem_cons.1 hY
    obtain ⟨hZ, hrestZ⟩ := List.forall_mem_cons.1 hZ
    obtain ⟨hnext, hanswer⟩ := h.step op hY hZ
    rw [trace, trace, hanswer, hnext.reports_eq, ih hnext hrestY hrestZ]

end Alike

/-- Runs over two kinds of sets that act as mathematical sets agree wherever both have room. -/
theorem agreeWithRoom [SharedSet η μ] [SharedSet η' μ'] [VersionSet σ] [LawfulVersionSet σ]
    [VersionSet σ'] [LawfulVersionSet σ'] {L : Layout η μ σ} {L' : Layout η' μ' σ'}
    (hL : L.Lawful) (hL' : L'.Lawful) {m : μ} {m' : μ'} (hm : (SharedSet.arena η m).used = 0)
    (hm' : (SharedSet.arena η' m').used = 0) (ops : List (SetOp ε)) :
    AgreeWithRoom (started m : Sets η μ) (started m' : Sets η' μ') ops := by
  intro hops hops' hroom hroom'
  have htrace := trace_eq_of_lawful hL hm hops
  have htrace' := trace_eq_of_lawful hL' hm' hops'
  have hstart : Alike (started (SharedSet.arena η m) : Sets (MathSet σ) Arena)
      (started (SharedSet.arena η' m') : Sets (MathSet σ') Arena) := rfl
  unfold HasRoom at *
  rw [htrace] at hroom ⊢
  rw [htrace'] at hroom' ⊢
  exact hstart.trace_eq hroom hroom'

/-- All three kinds of sets implement mathematical sets. However many sets a run makes from unused
memory and whatever it then does to them, every step is that on mathematical sets; and any two of
the kinds answer and show the same. -/
theorem steps_are_mathematical (words : Memory UInt32) (slots : Memory UInt16)
    (hwords : words.used = 0) (hslots : slots.used = 0) (ops : List (SetOp ε)) (op : SetOp ε) :
    let inline : Sets InlineSet Unit := started ()
    let masked : Sets WordRange (Memory UInt32) := started words
    let sorted : Sets SlotRange (Memory UInt16) := started slots
    (inline.AllowsAll (ops ++ [op]) →
      StepsAs (inline.run ops) ((started { slots := 0 } : Sets (MathSet WordSet) Arena).run ops) op) ∧
    (masked.AllowsAll (ops ++ [op]) →
      StepsAs (masked.run ops) ((started words.arena : Sets (MathSet WordsSet) Arena).run ops) op) ∧
    (sorted.AllowsAll (ops ++ [op]) →
      StepsAs (sorted.run ops) ((started slots.arena : Sets (MathSet SortedSet) Arena).run ops) op) ∧
    AgreeWithRoom inline masked ops ∧ AgreeWithRoom inline sorted ops ∧
    AgreeWithRoom masked sorted ops :=
  ⟨stepsAs_of_lawful InlineSet.lawful_layout rfl, stepsAs_of_lawful WordRange.lawful_layout hwords,
    stepsAs_of_lawful SlotRange.lawful_layout hslots,
    agreeWithRoom InlineSet.lawful_layout WordRange.lawful_layout rfl hwords ops,
    agreeWithRoom InlineSet.lawful_layout SlotRange.lawful_layout rfl hslots ops,
    agreeWithRoom WordRange.lawful_layout SlotRange.lawful_layout hwords hslots ops⟩

/-- Two sets of each kind are put together, and the one that is changed is asked about then. -/
theorem steps_are_mathematical_retain :
    let ops : List (SetOp Unit) := [.create 3, .push 0 2, .create 3, .union 1 0]
    let op : SetOp Unit := .retain 1 fun v => if v = 2 then .error () else .ok true
    StepsAs ((started () : Sets InlineSet Unit).run ops)
      ((started { slots := 0 } : Sets (MathSet WordSet) Arena).run ops) op ∧
    StepsAs ((started (Memory.new 8) : Sets WordRange (Memory UInt32)).run ops)
      ((started { slots := 8 } : Sets (MathSet WordsSet) Arena).run ops) op ∧
    StepsAs ((started (Memory.new 2048) : Sets SlotRange (Memory UInt16)).run ops)
      ((started { slots := 2048 } : Sets (MathSet SortedSet) Arena).run ops) op ∧
    (started () : Sets InlineSet Unit).trace ops =
      (started (Memory.new 8) : Sets WordRange (Memory UInt32)).trace ops := by
  intro ops op
  have harena : (Memory.new 2048 : Memory UInt16).arena = { slots := 2048 } := by
    simp [Memory.arena, Memory.new]
  have hinline : (started () : Sets InlineSet Unit).AllowsAll (ops ++ [op]) := by
    refine ⟨trivial, ?_, trivial, Nat.one_ne_zero, trivial, trivial⟩
    rintro s ⟨⟩
    exact ⟨by decide, fun h => by cases h⟩
  have hmasked : (started (Memory.new 8) : Sets WordRange (Memory UInt32)).AllowsAll
      (ops ++ [op]) := by
    refine ⟨trivial, ?_, trivial, Nat.one_ne_zero, trivial, trivial⟩
    rintro s ⟨⟩
    exact ⟨by decide, fun h => by cases h⟩
  have hsorted (m : Memory UInt16) (hm : m.arena = { slots := 2048 }) :
      (started m : Sets SlotRange (Memory UInt16)).AllowsAll (ops ++ [op]) := by
    have hcreate : SlotRange.create m 3 = .ok (⟨m.used, 3, 0⟩, { m with used := 1024 }) := by
      simp [SlotRange.create, Memory.alloc, hm, Arena.take, Arena.available, mostVersions]
    have hstep : (started m : Sets SlotRange (Memory UInt16)).step (.create 3 : SetOp Unit) =
        (⟨{ m with used := 1024 }, [⟨m.used, 3, 0⟩]⟩, .done) := congrArg (Sets.adding _) hcreate
    refine ⟨trivial, ?_, trivial, Nat.one_ne_zero, trivial, trivial⟩
    rw [hstep]
    rintro s ⟨⟩
    exact ⟨show 2 < 3 by decide, fun _ w hw => by cases hw⟩
  obtain ⟨hinlineSteps, hmaskedSteps, hsortedSteps, hagree, -, -⟩ :=
    steps_are_mathematical (Memory.new 8) (Memory.new 2048) rfl rfl ops op
  refine ⟨hinlineSteps hinline, hmaskedSteps hmasked, ?_, hagree ?_ ?_ ?_ ?_⟩
  · have hsteps := hsortedSteps (hsorted _ harena)
    rwa [harena] at hsteps
  · exact ⟨trivial, hinline.2.1, trivial, Nat.one_ne_zero, trivial⟩
  · exact ⟨trivial, hmasked.2.1, trivial, Nat.one_ne_zero, trivial⟩
  · rintro _ (_ | ⟨_, _ | ⟨_, _ | ⟨_, _ | ⟨_, ⟨⟩⟩⟩⟩⟩) h <;> exact h
  · rintro _ (_ | ⟨_, _ | ⟨_, _ | ⟨_, _ | ⟨_, ⟨⟩⟩⟩⟩⟩) h <;> exact h

end Sets

end CardSearch
