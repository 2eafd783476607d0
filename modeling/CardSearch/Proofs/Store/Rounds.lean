import CardSearch.Store.Awaiting

/-!
# What one round does

A round polls the loads that are waited for in turn, and then the sorter. What becomes of each of
them, and of the round, is said here once.
-/

namespace CardSearch

namespace CardStore

variable {s s' : CardStore} {source : Source}

/-- What a round does to one load that is waited for, if it goes on to the others: nothing if it has
been seen to end, else it polls the load, which has not failed. -/
inductive PollsOne (source : Source) (s : CardStore) (a : Awaited) : CardStore → Awaited → Prop
  | passed (hdone : a.done = true) : PollsOne source s a s a
  | ended {l : Loaded} (hdone : a.done = false)
    (hresult : (s.poll source a.load).result? a.load = some (.ok l)) :
    PollsOne source s a (s.poll source a.load) { a with done := true }
  | pending (hdone : a.done = false) (hresult : (s.poll source a.load).result? a.load = none) :
    PollsOne source s a (s.poll source a.load) a

/-- A round ends with the first load that fails, or goes on to the others. -/
theorem pollAll_cons (source : Source) (s : CardStore) (a : Awaited) (as : List Awaited) :
    (∃ e, (s.poll source a.load).result? a.load = some (.error e) ∧
        s.pollAll source (a :: as) = (s.poll source a.load, .error e)) ∨
      ∃ s₁ a', PollsOne source s a s₁ a' ∧ s.pollAll source (a :: as) =
        ((s₁.pollAll source as).1, (s₁.pollAll source as).2.map (a' :: ·)) := by
  rw [pollAll]
  split
  · next hdone => exact .inr ⟨s, a, .passed hdone, rfl⟩
  · next hnot =>
    have hdone : a.done = false := by simpa using hnot
    dsimp only
    split
    · next e he => exact .inl ⟨e, he, rfl⟩
    · next hresult => exact .inr ⟨_, _, .ended hdone hresult, rfl⟩
    · next hresult => exact .inr ⟨_, _, .pending hdone hresult, rfl⟩

theorem pollAll_cons_eq_ok {a : Awaited} {as as' : List Awaited}
    (h : s.pollAll source (a :: as) = (s', .ok as')) :
    ∃ s₁ a' rest, PollsOne source s a s₁ a' ∧ s₁.pollAll source as = (s', .ok rest) ∧
      as' = a' :: rest := by
  rcases pollAll_cons source s a as with ⟨e, -, heq⟩ | ⟨s₁, a', hone, heq⟩
  · cases heq.symm.trans h
  · rw [heq] at h
    generalize hr : s₁.pollAll source as = r at h
    obtain ⟨s₂, _ | rest⟩ := r
    · cases h
    · cases h
      exact ⟨s₁, a', rest, hone, hr, rfl⟩

end CardStore

namespace Waiting

open CardStore

variable {s : CardStore} {source : Source}

def settle (w : Waiting) (s : CardStore) (x : Sorter) : CardStore × Progress Waiting Sorter :=
  if w.columns.all (·.done) then (s, .ready x) else (s, .pending { w with sorterSeen := some x })

theorem settle_cases (w : Waiting) (s : CardStore) (x : Sorter) :
    w.columns.all (·.done) = true ∧ w.settle s x = (s, .ready x) ∨
      (∃ a ∈ w.columns, a.done = false) ∧
        w.settle s x = (s, .pending { w with sorterSeen := some x }) := by
  unfold settle
  split
  · next hall => exact .inl ⟨hall, rfl⟩
  · next hnot => exact .inr ⟨by simpa using hnot, rfl⟩

@[simp]
theorem settle_fst (w : Waiting) (s : CardStore) (x : Sorter) : (w.settle s x).1 = s := by
  unfold settle
  split <;> rfl

/-- What a round over all that is waited for comes to: a column or the sorter has failed, or the
sorter has been seen, in this round or before, or it goes on. -/
inductive Polls (source : Source) (s : CardStore) (w : Waiting) :
    CardStore × Progress Waiting Sorter → Prop
  | failed {s' : CardStore} {e : LoadError} (hall : s.pollAll source w.columns = (s', .error e)) :
    Polls source s w (s', .failed e)
  | seen {s' : CardStore} {columns : List Awaited} {x : Sorter}
    (hall : s.pollAll source w.columns = (s', .ok columns)) (hseen : w.sorterSeen = some x) :
    Polls source s w (({ w with columns } : Waiting).settle s' x)
  | sorterFailed {s' : CardStore} {columns : List Awaited} {e : LoadError}
    (hall : s.pollAll source w.columns = (s', .ok columns)) (hseen : w.sorterSeen = none)
    (hresult : (s'.poll source w.sorter).result? w.sorter = some (.error e)) :
    Polls source s w (s'.poll source w.sorter, .failed e)
  | sorterEnded {s' : CardStore} {columns : List Awaited} {l : Loaded}
    (hall : s.pollAll source w.columns = (s', .ok columns)) (hseen : w.sorterSeen = none)
    (hresult : (s'.poll source w.sorter).result? w.sorter = some (.ok l)) :
    Polls source s w (({ w with columns } : Waiting).settle (s'.poll source w.sorter) (sorterOf l))
  | pending {s' : CardStore} {columns : List Awaited}
    (hall : s.pollAll source w.columns = (s', .ok columns)) (hseen : w.sorterSeen = none)
    (hresult : (s'.poll source w.sorter).result? w.sorter = none) :
    Polls source s w (s'.poll source w.sorter, .pending { w with columns })

theorem polls_poll (source : Source) (s : CardStore) (w : Waiting) :
    w.Polls source s (w.poll source s) := by
  unfold poll
  generalize hall : s.pollAll source w.columns = r
  obtain ⟨s', e | columns⟩ := r
  · exact .failed hall
  · dsimp only
    split
    · next x hseen => exact .seen hall hseen
    · next hseen =>
      split
      · next e hresult => exact .sorterFailed hall hseen hresult
      · next l hresult => exact .sorterEnded hall hseen hresult
      · next hresult => exact .pending hall hseen hresult

end Waiting

namespace CardStore

variable {s : CardStore} {source : Source} {P : CardStore → Prop}
  (hpoll : ∀ {s : CardStore}, P s → ∀ id, P (s.poll source id))
include hpoll

/-- What is kept by polling loads is kept by a round over columns. -/
theorem pollAll_of_polls (h : P s) (as : List Awaited) : P (s.pollAll source as).1 := by
  induction as generalizing s with
  | nil => exact h
  | cons a as ih =>
    rcases pollAll_cons source s a as with ⟨e, -, heq⟩ | ⟨s₁, a', hone, heq⟩
    · rw [heq]
      exact hpoll h a.load
    · rw [heq]
      cases hone with
      | passed => exact ih h
      | ended | pending => exact ih (hpoll h a.load)

theorem poll_of_polls (h : P s) (w : Waiting) : P (w.poll source s).1 := by
  have hall {s' : CardStore} {r : Except LoadError (List Awaited)}
      (heq : s.pollAll source w.columns = (s', r)) : P s' := by
    have hkept := pollAll_of_polls hpoll h w.columns
    rwa [heq] at hkept
  have hpolls := w.polls_poll source s
  generalize w.poll source s = r at hpolls ⊢
  cases hpolls with
  | failed heq => exact hall heq
  | seen heq => simpa using hall heq
  | sorterFailed heq | pending heq => exact hpoll (hall heq) w.sorter
  | sorterEnded heq => simpa using hpoll (hall heq) w.sorter

end CardStore

end CardSearch
