import CardSearch.Engine.Rounds
import CardSearch.Proofs.Engine.SingleFlight
import CardSearch.Proofs.Query.Identity

/-!
# The keys of runs

A request is answered by a run of its key, and a run carries out a query of the digest in its key.
So requests whose conditions differ have runs of their own, as long as neither the lengths in the
two encodings nor the digests of these are confused.
-/

namespace CardSearch

def RunRequest.key (a : RunRequest) : RunKey := ⟨a.query.digest, a.order, a.ascending⟩

namespace Engine

variable {e e' : Engine} {id : RunId} {run : Run}

def Keyed (e : Engine) : Prop := ∀ (id : RunId) (run : Run), e.runs[id]? = some run →
  run.query.digest = run.key.digest

theorem Keyed.of_runs_eq (h : e.Keyed) (hruns : e'.runs = e.runs) : e'.Keyed := by
  intro id run hrun
  rw [hruns] at hrun
  exact h id run hrun

private theorem Keyed.request (h : e.Keyed) (q : Query) (order : SortOrder) (ascending : Bool) :
    (e.request q order ascending).1.Keyed := by
  unfold Engine.request
  dsimp only
  split
  · exact h.of_runs_eq rfl
  · intro id run hrun
    have hrun := Array.getElem?_push.symm.trans hrun
    split at hrun
    · cases hrun
      rfl
    · exact h id run hrun

/-- Another stage of a run keeps its query and its key. -/
theorem Keyed.setRun (h : e.Keyed) (hrun : e.runs[id]? = some run) {run' : Run}
    (hruns : e'.runs = e.runs.setIfInBounds id run') (hquery : run'.query = run.query)
    (hkey : run'.key = run.key) : e'.Keyed := by
  have hid := (Array.getElem?_eq_some_iff.1 hrun).1
  intro j other hother
  rw [hruns, Array.getElem?_setIfInBounds, if_pos hid] at hother
  split at hother
  · cases hother
    rw [hquery, hkey]
    exact h id run hrun
  · exact h j other hother

private theorem Keyed.poll (h : e.Keyed) (source : Source) (id : RunId) :
    (e.poll source id).Keyed := by
  by_cases hpending : ∃ run, e.runs[id]? = some run ∧ run.result? = none
  · obtain ⟨run, hrun, hpending⟩ := hpending
    obtain ⟨started, hflies⟩ := flies_poll source hrun hpending
    generalize e.outcomes source id = new at hflies
    cases hflies with
    | waits errors waiting hn hruns => exact h.setRun hrun hruns rfl rfl
    | ends errors outcome hn hall hruns => exact h.setRun hrun hruns rfl rfl
  · rw [poll_eq_self source fun run hrun hnone => hpending ⟨run, hrun, hnone⟩]
    exact h

end Engine

def ServiceStep.request? : ServiceStep → Option RunRequest
  | .act (.request query order ascending) => some ⟨query, order, ascending⟩
  | _ => none

namespace Service

/-- The requests that are made, one after the other. -/
def asked (steps : List ServiceStep) : List RunRequest := steps.filterMap ServiceStep.request?

variable {v : Service}

private theorem keyed_start (refetchInterval : Nat) (subsets : SubsetStore)
    (settings : EngineSettings) : (start refetchInterval subsets settings).engine.Keyed := by
  intro id run hrun
  cases hrun

private theorem keyed_act (h : v.engine.Keyed) (action : SessionStep) :
    (v.act action).engine.Keyed := by
  have hkeeps := @Session.keeps_step v.session action
  cases action with
  | request q order ascending => exact h.request q order ascending
  | poll source id => exact h.poll source id
  | preload | pollPreload | load | loadSorter | pollLoad | createSubset | updateSubset | wait =>
    exact h.of_runs_eq (hkeeps nofun nofun).runs_eq

private theorem keyed_step (h : v.engine.Keyed) (x : ServiceStep) : (v.step x).engine.Keyed := by
  cases x with
  | act action => exact keyed_act h action
  | await source i =>
    rw [Service.step]
    split
    · exact h
    · next r hr =>
      split
      · exact keyed_act h (.poll source r.run)
      · exact h
  | abandon i => exact h

private theorem keyed_run (h : v.engine.Keyed) (steps : List ServiceStep) :
    (v.run steps).engine.Keyed := by
  induction steps generalizing v with
  | nil => exact h
  | cons x steps ih => exact ih (keyed_step h x)

def keys (v : Service) : List RunKey := v.requesters.map Requester.key

private theorem map_key_set {rs : List Requester} {i : Nat} {r r' : Requester}
    (hr : rs[i]? = some r)
    (hkey : r'.key = r.key) : (rs.set i r').map Requester.key = rs.map Requester.key := by
  obtain ⟨hi, rfl⟩ := List.getElem?_eq_some_iff.1 hr
  have hi' : i < (rs.map Requester.key).length := by simpa using hi
  have hget : rs[i].key = (rs.map Requester.key)[i] := (List.getElem_map Requester.key).symm
  rw [List.map_set, hkey, hget, List.set_getElem_self hi']

private theorem map_key_modify {rs : List Requester} (i : Nat) {f : Requester → Requester}
    (hkey : ∀ r, (f r).key = r.key) : (rs.modify i f).map Requester.key = rs.map Requester.key := by
  refine List.ext_getElem? fun j => ?_
  rw [List.getElem?_map, List.getElem?_map, List.getElem?_modify, Option.map_eq_map, Option.map_map]
  refine congrArg (Option.map · rs[j]?) (funext fun r => ?_)
  by_cases hj : i = j
  · simp [hj, hkey]
  · simp [hj]

private theorem keys_act (v : Service) (action : SessionStep) :
    (v.act action).keys = v.keys ++ (asked [.act action]).map RunRequest.key := by
  cases action with
  | request q order ascending => exact List.map_append
  | _ => exact (List.append_nil _).symm

private theorem keys_step (v : Service) (x : ServiceStep) :
    (v.step x).keys = v.keys ++ (asked [x]).map RunRequest.key := by
  cases x with
  | act action => exact v.keys_act action
  | await source i =>
    rw [Service.step]
    change _ = v.keys ++ []
    rw [List.append_nil]
    split
    · rfl
    · next r hr =>
      split
      · -- the one who polls keeps its key
        exact map_key_set hr rfl
      · rfl
  | abandon i =>
    change _ = v.keys ++ []
    rw [List.append_nil]
    exact map_key_modify i fun _ => rfl

private theorem keys_run (v : Service) (steps : List ServiceStep) :
    (v.run steps).keys = v.keys ++ (asked steps).map RunRequest.key := by
  induction steps generalizing v with
  | nil => exact (List.append_nil _).symm
  | cons x steps ih =>
    have hcons : asked (x :: steps) = asked [x] ++ asked steps := List.filterMap_append (l := [x])
    change ((v.step x).run steps).keys = _
    rw [ih, keys_step, hcons, List.map_append, List.append_assoc]

/-- A request is answered by a run of its key, which carries out a query of its digest. What has been
received is what the run came to. -/
structure AnsweredBy (v : Service) (i : Nat) (a : RunRequest) (id : RunId) (run : Run) : Prop where
  requester : ∃ r, v.requesters[i]? = some r ∧ r.run = id ∧
    ∀ outcome, r.answer? = some outcome → run.result? = some outcome
  run_eq : v.engine.runs[id]? = some run
  key_eq : run.key = a.key
  digest_eq : run.query.digest = a.query.digest

theorem exists_answeredBy (refetchInterval : Nat) (subsets : SubsetStore) (settings : EngineSettings)
    {steps : List ServiceStep} {i : Nat} {a : RunRequest} (ha : (asked steps)[i]? = some a) :
    ∃ id run, ((start refetchInterval subsets settings).run steps).AnsweredBy i a id run := by
  have hsound := (sound_start refetchInterval subsets settings).run steps
  have hkeyed := keyed_run (keyed_start refetchInterval subsets settings) steps
  have hkeys := keys_run (start refetchInterval subsets settings) steps
  generalize (start refetchInterval subsets settings).run steps = v at *
  have hkey : (v.requesters.map Requester.key)[i]? = some a.key := by
    change v.keys[i]? = _
    rw [hkeys]
    change ((asked steps).map RunRequest.key)[i]? = _
    rw [List.getElem?_map, ha]
    rfl
  rw [List.getElem?_map] at hkey
  obtain ⟨r, hr, hrkey⟩ := Option.map_eq_some_iff.1 hkey
  obtain ⟨run, hrun, hrunkey, hanswer⟩ := hsound.serves r (List.mem_of_getElem? hr)
  have hown : run.key = a.key := hrunkey.trans hrkey
  exact ⟨r.run, run, ⟨r, hr, rfl, hanswer⟩, hrun, hown,
    (hkeyed r.run run hrun).trans (congrArg RunKey.digest hown)⟩

/-- Two requests of typed queries whose conditions differ, with lengths that are told apart, are not
confused. The encodings differ; and if their digests do too, so do the keys, and the requests are
answered by two runs, neither of which carries out the condition of the other request. -/
theorem answers_apart {a b : RunRequest} (ha : a.query.Typed) (hb : b.query.Typed)
    (hlengths : LengthsTold a.query.condition.lengths b.query.condition.lengths)
    (hne : a.query.condition ≠ b.query.condition) :
    a.query.condition.encode ≠ b.query.condition.encode ∧
    ((Sha256.digest a.query.condition.encode = Sha256.digest b.query.condition.encode →
        a.query.condition.encode = b.query.condition.encode) →
      a.key ≠ b.key ∧
      ∀ (refetchInterval : Nat) (subsets : SubsetStore) (settings : EngineSettings)
        (steps : List ServiceStep) (i j : Nat),
        (asked steps)[i]? = some a → (asked steps)[j]? = some b →
        let v := (start refetchInterval subsets settings).run steps
        ∃ idA runA idB runB, v.AnsweredBy i a idA runA ∧ v.AnsweredBy j b idB runB ∧ idA ≠ idB ∧
          runA.query.condition ≠ b.query.condition ∧ runB.query.condition ≠ a.query.condition) := by
  have hencode : a.query.condition.encode ≠ b.query.condition.encode := fun heq =>
    hne (Condition.eq_of_encode ha.each_typed hb.each_typed hlengths heq)
  refine ⟨hencode, fun hcollide => ?_⟩
  have hdigest : a.query.digest ≠ b.query.digest := fun heq =>
    hencode (hcollide (Digest.mk.inj heq))
  have hkey : a.key ≠ b.key := fun heq => hdigest (congrArg RunKey.digest heq)
  refine ⟨hkey, fun refetchInterval subsets settings steps i j hi hj => ?_⟩
  obtain ⟨idA, runA, hA⟩ := exists_answeredBy refetchInterval subsets settings hi
  obtain ⟨idB, runB, hB⟩ := exists_answeredBy refetchInterval subsets settings hj
  refine ⟨idA, runA, idB, runB, hA, hB, ?_, fun heq => ?_, fun heq => ?_⟩
  · rintro rfl
    cases hA.run_eq.symm.trans hB.run_eq
    exact hkey (hA.key_eq.symm.trans hB.key_eq)
  · exact hdigest (hA.digest_eq.symm.trans (congrArg Condition.digest heq))
  · exact hdigest ((congrArg Condition.digest heq).symm.trans hB.digest_eq)

def smallElves : RunRequest := ⟨(Query.read {} "t:elf cmc<3").simplify {}, .cmc, true⟩

def noSmallElves : RunRequest := ⟨(Query.read {} "-(t:elf cmc<3)").simplify {}, .cmc, true⟩

/-- Both are asked for at once, and polled before either has its data. -/
theorem answers_apart_smallElves :
    smallElves.query.Typed ∧ noSmallElves.query.Typed ∧
    LengthsTold smallElves.query.condition.lengths noSmallElves.query.condition.lengths ∧
    smallElves.key ≠ noSmallElves.key ∧
    let v := (start 60 ∅ {}).run [.act (.request smallElves.query .cmc true),
      .act (.request noSmallElves.query .cmc true), .await (fun _ => none) 1, .await (fun _ => none) 0]
    ∃ idA runA idB runB, v.AnsweredBy 0 smallElves idA runA ∧
      v.AnsweredBy 1 noSmallElves idB runB ∧ idA ≠ idB ∧
      runA.query.condition ≠ noSmallElves.query.condition ∧
      runB.query.condition ≠ smallElves.query.condition := by
  have ha : smallElves.query.Typed := (Query.Typed.read {} "t:elf cmc<3").simplify {}
  have hb : noSmallElves.query.Typed := (Query.Typed.read {} "-(t:elf cmc<3)").simplify {}
  have hlengths : LengthsTold smallElves.query.condition.lengths
      noSmallElves.query.condition.lengths := by
    unfold LengthsTold
    decide +kernel
  have hdigest : Sha256.digest smallElves.query.condition.encode ≠
      Sha256.digest noSmallElves.query.condition.encode := by decide +kernel
  obtain ⟨-, hapart⟩ := answers_apart ha hb hlengths (by decide +kernel)
  obtain ⟨hkey, hruns⟩ := hapart fun heq => absurd heq hdigest
  exact ⟨ha, hb, hlengths, hkey, hruns 60 ∅ {} _ 0 1 rfl rfl⟩

end Service

end CardSearch
