import CardSearch.Query.Reading

/-!
# Reading token by token

Reading a text as a query takes one step for each token. It comes to an early end where a
parenthesis closes that was not opened, and then nothing matches.
-/

namespace CardSearch.QueryReader

/-- The reader after one more token, unless the token closes a group that was not opened. -/
def step (r : QueryReader) : Token → Option QueryReader
  | .term t => some ({ r with properties := r.properties ∪ t.properties }.push t.condition)
  | .minus => some { r with negations := r.negations + 1 }
  | .or => some { r with group := r.group.endAlternative }
  | .opening => some { r with
      negations := 0
      group := { negations := r.negations }
      outer := r.group :: r.outer }
  | .closing =>
    match r.outer with
    | [] => none
    | g :: outer =>
      match r.group.condition? with
      | none => some { r with negations := 0, group := g, outer }
      | some c => some ({ r with negations := r.group.negations, group := g, outer }.push c)

/-- The reader after some more tokens. -/
def steps (r : QueryReader) (ts : List Token) : Option QueryReader := ts.foldlM step r

def finish (r : QueryReader) : Query :=
  match r.outer with
  | [] => ⟨r.properties, r.group.condition?.getD (.const true)⟩
  | _ :: _ => ⟨r.properties, .const false⟩

private theorem run_nil (r : QueryReader) : r.run [] = r.finish := rfl

theorem run_cons_of_some {r r' : QueryReader} {t : Token} (h : r.step t = some r')
    (ts : List Token) : r.run (t :: ts) = r'.run ts := by
  cases t with
  | closing =>
    rw [run]
    cases houter : r.outer with
    | nil =>
      simp only [step, houter] at h
      cases h
    | cons g outer =>
      cases hc : r.group.condition? with
      | none =>
        simp only [step, houter, hc] at h
        cases h
        rfl
      | some c =>
        simp only [step, houter, hc] at h
        cases h
        rfl
  | _ =>
    cases h
    rw [run]

theorem run_cons_of_none {r : QueryReader} {t : Token} (h : r.step t = none) (ts : List Token) :
    r.run (t :: ts) = ⟨r.properties, .const false⟩ := by
  cases t with
  | closing =>
    rw [run]
    cases houter : r.outer with
    | nil => rfl
    | cons g outer =>
      cases hc : r.group.condition? with
      | none =>
        simp only [step, houter, hc] at h
        cases h
      | some c =>
        simp only [step, houter, hc] at h
        cases h
  | _ => cases h

@[simp] theorem steps_nil (r : QueryReader) : r.steps [] = some r := rfl

@[simp] theorem steps_cons (r : QueryReader) (t : Token) (ts : List Token) :
    r.steps (t :: ts) = (r.step t).bind (steps · ts) := List.foldlM_cons

theorem steps_append (r : QueryReader) (ts us : List Token) :
    r.steps (ts ++ us) = (r.steps ts).bind (steps · us) := List.foldlM_append

/-- Where no token closes too much, reading ends with the last one. -/
theorem run_of_steps {r r' : QueryReader} {ts : List Token} (h : r.steps ts = some r') :
    r.run ts = r'.finish := by
  induction ts generalizing r with
  | nil =>
    cases h
    exact run_nil _
  | cons t ts ih =>
    obtain ⟨next, hnext, hsteps⟩ := Option.bind_eq_some_iff.1 (steps_cons .. ▸ h)
    rw [run_cons_of_some hnext, ih hsteps]

/-- Where some token closes too much, nothing matches. -/
theorem condition_run_of_none {r : QueryReader} {ts : List Token} (h : r.steps ts = none) :
    (r.run ts).condition = .const false := by
  induction ts generalizing r with
  | nil => cases h
  | cons t ts ih =>
    cases hstep : r.step t with
    | none => rw [run_cons_of_none hstep]
    | some next =>
      rw [run_cons_of_some hstep]
      exact ih (by simpa [hstep] using h)

end CardSearch.QueryReader
