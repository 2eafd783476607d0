import CardSearch.Subset
import Mathlib.Data.List.Induction

/-!
# Names of subsets

A store files each subset twice, under its id and under its name. What the dictionary of names
answers is stored under its id with that name, whatever was called before. The other way round, a
stored subset is found by its name as long as no call has taken a name from another subset: creating
a subset refuses to, but an update and a subset made on demand file theirs without looking, and the
subset that had the name is then found by its id only.
-/

namespace CardSearch

/-- A call that may change a store. A subset that is created without an id gets one that was made
for it, so it is created like any other. -/
inductive SubsetCall
  | create (subset : Subset)
  | getOrCreate (id : String)
  | update (subset : Subset)

namespace SubsetCall

def subset : SubsetCall → Subset
  | .create subset | .update subset => subset
  | .getOrCreate id => ⟨id, id, Query.none⟩

end SubsetCall

namespace SubsetStore

/-- The store after a call; a refused creation leaves it as it is. -/
def act (store : SubsetStore) : SubsetCall → SubsetStore
  | .create subset => (store.create subset).toOption.getD store
  | .getOrCreate id => (store.getOrCreate id).2
  | .update subset => store.update subset

/-- The store after calls in turn, when nothing was stored before. -/
def run (calls : List SubsetCall) : SubsetStore := calls.foldl act ∅

/-- A subset is stored, under whatever id. -/
def Has (store : SubsetStore) (subset : Subset) : Prop := ∃ id, store.byId.get? id = some subset

/-- A call goes through: a creation if both its id and its name are free, a subset made on demand if
its id is free. -/
def Admits (store : SubsetStore) : SubsetCall → Prop
  | .create subset => store.byId.get? subset.id = none ∧ store.byName.get? subset.name = none
  | .getOrCreate id => store.byId.get? id = none
  | .update _ => True

/-- A call files its subset under a name by which another subset is found. -/
def Takes (store : SubsetStore) (call : SubsetCall) : Prop :=
  store.Admits call ∧
    ∃ other, store.byName.get? call.subset.name = some other ∧ other.id ≠ call.subset.id

/-- No call takes the name of another subset. -/
def KeepsNames (calls : List SubsetCall) : Prop :=
  ∀ earlier call, earlier ++ [call] <+: calls → ¬ (run earlier).Takes call

def GivesUp (store : SubsetStore) (subset : Subset) (name : String) : Prop :=
  ∃ old, store.byId.get? subset.id = some old ∧ old.name = name

/-- Subsets are filed under their own ids and names, and one that is found by its name is found by
its id. -/
structure Filed (store : SubsetStore) : Prop where
  id_eq {id : String} {subset : Subset} : store.byId.get? id = some subset → subset.id = id
  name_eq {name : String} {subset : Subset} :
    store.byName.get? name = some subset → subset.name = name
  get?_id {name : String} {subset : Subset} :
    store.byName.get? name = some subset → store.byId.get? subset.id = some subset

/-- A name leads to a subset exactly if the subset is stored and has that name. -/
def InStep (store : SubsetStore) : Prop :=
  ∀ name subset, store.byName.get? name = some subset ↔ store.Has subset ∧ subset.name = name

/-- Another subset than the one that a call files is found as before, by its id and by its name. -/
def Keeps (store : SubsetStore) (call : SubsetCall) (other : Subset) : Prop :=
  (store.act call).byId.get? other.id = some other ∧
    (store.act call).byName.get? other.name = some other

section Calls

variable {store : SubsetStore} {call : SubsetCall} {subset other : Subset} {id name : String}

private theorem update_eq_insert (h : store.byId.get? subset.id = none) :
    store.update subset = store.insert subset := by
  rw [update, get?, h]

/-- A call that goes through files its subset as an update would, and every other call leaves the
store as it is. -/
theorem act_cases (store : SubsetStore) (call : SubsetCall) :
    store.Admits call ∧ store.act call = store.update call.subset ∨
      ¬ store.Admits call ∧ store.act call = store := by
  cases call with
  | create subset =>
    simp only [Admits, act, create, Dict.contains_eq_isSome]
    cases hid : store.byId.get? subset.id with
    | some old => exact .inr ⟨fun h => (nomatch h.1), rfl⟩
    | none =>
      cases hname : store.byName.get? subset.name with
      | some old => exact .inr ⟨fun h => (nomatch h.2), rfl⟩
      | none => exact .inl ⟨⟨rfl, rfl⟩, (update_eq_insert hid).symm⟩
  | getOrCreate id =>
    simp only [Admits, act, getOrCreate, get?]
    cases hid : store.byId.get? id with
    | some old => exact .inr ⟨nofun, rfl⟩
    | none =>
      have hfree : store.byId.get? (SubsetCall.getOrCreate id).subset.id = none := hid
      exact .inl ⟨rfl, (update_eq_insert hfree).symm⟩
  | update subset => exact .inl ⟨trivial, rfl⟩

theorem not_takes_create (store : SubsetStore) (subset : Subset) :
    ¬ store.Takes (.create subset) := by
  rintro ⟨⟨-, hfree⟩, other, hother, -⟩
  exact nomatch hfree.symm.trans hother

theorem get?_id_update (store : SubsetStore) (subset : Subset) (id : String) :
    (store.update subset).byId.get? id =
      if subset.id = id then some subset else store.byId.get? id := by
  rw [update]
  split <;> exact Dict.get?_insert ..

theorem get?_name_update_self (store : SubsetStore) (subset : Subset) :
    (store.update subset).byName.get? subset.name = some subset := by
  rw [update]
  split <;> exact (Dict.get?_insert ..).trans (if_pos rfl)

private theorem get?_name_update_of_givesUp (hname : subset.name ≠ name)
    (h : store.GivesUp subset name) : (store.update subset).byName.get? name = none := by
  obtain ⟨old, hold, rfl⟩ := h
  rw [update, get?, hold]
  exact (Dict.get?_insert ..).trans ((if_neg hname).trans
    ((Dict.get?_erase ..).trans (if_pos rfl)))

theorem get?_name_update_of_not_givesUp (hname : subset.name ≠ name)
    (h : ¬ store.GivesUp subset name) :
    (store.update subset).byName.get? name = store.byName.get? name := by
  rw [update, get?]
  split
  · next old hold =>
    have hkept : old.name ≠ name := fun hname => h ⟨old, hold, hname⟩
    exact (Dict.get?_insert ..).trans ((if_neg hname).trans
      ((Dict.get?_erase ..).trans (if_neg hkept)))
  · exact (Dict.get?_insert ..).trans (if_neg hname)

/-- Unless it is the new name of the subset that is filed, a name leads where it led before or
nowhere. -/
theorem get?_name_of_update (hname : subset.name ≠ name)
    (h : (store.update subset).byName.get? name = some other) :
    ¬ store.GivesUp subset name ∧ store.byName.get? name = some other := by
  by_cases hup : store.GivesUp subset name
  · exact nomatch (get?_name_update_of_givesUp hname hup).symm.trans h
  · exact ⟨hup, (get?_name_update_of_not_givesUp hname hup).symm.trans h⟩

/-- An id leads where it led before, unless it is that of the subset which the call files. -/
theorem get?_id_act (h : call.subset.id ≠ id) :
    (store.act call).byId.get? id = store.byId.get? id := by
  obtain ⟨-, hact⟩ | ⟨-, hact⟩ := act_cases store call
  · rw [hact, get?_id_update, if_neg h]
  · rw [hact]

/-- A name leads where it led before, unless the subset which the call files has or had it. -/
theorem get?_name_act (hname : call.subset.name ≠ name) (h : ¬ store.GivesUp call.subset name) :
    (store.act call).byName.get? name = store.byName.get? name := by
  obtain ⟨-, hact⟩ | ⟨-, hact⟩ := act_cases store call
  · rw [hact, get?_name_update_of_not_givesUp hname h]
  · rw [hact]

end Calls

namespace Filed

variable {store : SubsetStore} {subset : Subset}

private theorem update (h : store.Filed) (subset : Subset) : (store.update subset).Filed where
  id_eq {id other} hother := by
    rw [get?_id_update] at hother
    split at hother
    · next hid => exact Option.some.inj hother ▸ hid
    · exact h.id_eq hother
  name_eq {name other} hother := by
    by_cases hname : subset.name = name
    · subst hname
      exact Option.some.inj ((get?_name_update_self ..).symm.trans hother) ▸ rfl
    · exact h.name_eq (get?_name_of_update hname hother).2
  get?_id {name other} hother := by
    rw [get?_id_update]
    by_cases hname : subset.name = name
    · subst hname
      have : subset = other := Option.some.inj ((get?_name_update_self ..).symm.trans hother)
      rw [this, if_pos rfl]
    · obtain ⟨hkept, hbefore⟩ := get?_name_of_update hname hother
      have hstored : store.byId.get? other.id = some other := h.get?_id hbefore
      -- the subset under the id of the call would have given this name up
      have hid : subset.id ≠ other.id := fun hid =>
        hkept ⟨other, hid ▸ hstored, h.name_eq hbefore⟩
      rw [if_neg hid, hstored]

theorem act (h : store.Filed) (call : SubsetCall) : (store.act call).Filed := by
  obtain ⟨-, hact⟩ | ⟨-, hact⟩ := act_cases store call
  · rw [hact]
    exact h.update call.subset
  · rw [hact]
    exact h

private theorem foldl (h : store.Filed) (calls : List SubsetCall) :
    (calls.foldl SubsetStore.act store).Filed := by
  induction calls generalizing store with
  | nil => exact h
  | cons call calls ih => exact ih (h.act call)

theorem has_iff (h : store.Filed) : store.Has subset ↔ store.byId.get? subset.id = some subset := by
  constructor
  · rintro ⟨id, hid⟩
    exact h.id_eq hid ▸ hid
  · exact fun hid => ⟨subset.id, hid⟩

/-- The dictionaries are in step once every stored subset is found by its name. -/
theorem inStep_iff (h : store.Filed) :
    store.InStep ↔ ∀ subset, store.Has subset → store.byName.get? subset.name = some subset := by
  constructor
  · exact fun hstep subset hhas => (hstep ..).mpr ⟨hhas, rfl⟩
  · intro hfound name subset
    constructor
    · exact fun hname => ⟨⟨subset.id, h.get?_id hname⟩, h.name_eq hname⟩
    · rintro ⟨hhas, rfl⟩
      exact hfound subset hhas

end Filed

theorem filed_empty : (∅ : SubsetStore).Filed where
  id_eq := nofun
  name_eq := nofun
  get?_id := nofun

theorem filed_run (calls : List SubsetCall) : (run calls).Filed := filed_empty.foldl calls

theorem run_append (earlier : List SubsetCall) (call : SubsetCall) :
    run (earlier ++ [call]) = (run earlier).act call := by
  simp only [run, List.foldl_append, List.foldl_cons, List.foldl_nil]

namespace InStep

variable {store : SubsetStore} {call : SubsetCall} {other : Subset}

theorem eq_of_name_eq {subset : Subset} (h : store.InStep) (hsubset : store.Has subset)
    (hother : store.Has other) (hname : subset.name = other.name) : subset = other := by
  have hfound : store.byName.get? subset.name = some subset := (h ..).mpr ⟨hsubset, rfl⟩
  have hother : store.byName.get? subset.name = some other := (h ..).mpr ⟨hother, hname.symm⟩
  exact Option.some.inj (hfound.symm.trans hother)

/-- A call that takes no name leaves every other subset found by its id and by its name. -/
theorem keeps (hfiled : store.Filed) (h : store.InStep) (hcall : ¬ store.Takes call)
    (hother : store.Has other) (hid : other.id ≠ call.subset.id) : store.Keeps call other := by
  have hstored : store.byId.get? other.id = some other := hfiled.has_iff.mp hother
  have hfound : store.byName.get? other.name = some other := (h ..).mpr ⟨hother, rfl⟩
  obtain ⟨hadmits, -⟩ | ⟨-, hact⟩ := act_cases store call
  · refine ⟨(get?_id_act hid.symm).trans hstored, ?_⟩
    have hname : call.subset.name ≠ other.name := fun hname =>
      hcall ⟨hadmits, other, hname ▸ hfound, hid⟩
    -- a subset that gives this name up has it, and names are unique while in step
    have hkept : ¬ store.GivesUp call.subset other.name := by
      rintro ⟨old, hold, holdname⟩
      have : old = other := h.eq_of_name_eq ⟨_, hold⟩ hother holdname
      exact hid (this ▸ hfiled.id_eq hold)
    exact (get?_name_act hname hkept).trans hfound
  · rw [Keeps, hact]
    exact ⟨hstored, hfound⟩

/-- A call keeps every other subset where it was found exactly if it takes no name. -/
theorem keeps_iff (hfiled : store.Filed) (h : store.InStep) (call : SubsetCall) :
    (∀ other, store.Has other → other.id ≠ call.subset.id → store.Keeps call other) ↔
      ¬ store.Takes call := by
  constructor
  · rintro hkeeps ⟨hadmits, other, hother, hid⟩
    have hname : other.name = call.subset.name := hfiled.name_eq hother
    obtain ⟨-, hfound⟩ := hkeeps other ((h ..).mp hother).1 hid
    obtain ⟨-, hact⟩ | ⟨hrefused, -⟩ := act_cases store call
    · rw [hact, hname, get?_name_update_self] at hfound
      exact hid (Option.some.inj hfound ▸ rfl)
    · exact hrefused hadmits
  · exact fun hcall other hother hid => h.keeps hfiled hcall hother hid

/-- From dictionaries in step, a call leads to dictionaries in step exactly if it takes no name. -/
theorem act_iff (hfiled : store.Filed) (h : store.InStep) (call : SubsetCall) :
    (store.act call).InStep ↔ ¬ store.Takes call := by
  constructor
  · rintro hafter
    refine (h.keeps_iff hfiled call).mp fun other hother hid => ?_
    have hstored : (store.act call).byId.get? other.id = some other :=
      (get?_id_act hid.symm).trans (hfiled.has_iff.mp hother)
    exact ⟨hstored, (hafter ..).mpr ⟨⟨other.id, hstored⟩, rfl⟩⟩
  · intro hcall
    refine (hfiled.act call).inStep_iff.mpr fun other hother => ?_
    have hstored : (store.act call).byId.get? other.id = some other :=
      (hfiled.act call).has_iff.mp hother
    obtain ⟨hadmits, hact⟩ | ⟨-, hact⟩ := act_cases store call
    · by_cases hid : other.id = call.subset.id
      · rw [hact, get?_id_update, if_pos hid.symm] at hstored
        rw [hact, ← Option.some.inj hstored, get?_name_update_self]
      · rw [get?_id_act fun heq => hid heq.symm] at hstored
        exact (h.keeps hfiled hcall ⟨other.id, hstored⟩ hid).2
    · rw [hact] at hother ⊢
      exact (h ..).mpr ⟨hother, rfl⟩

end InStep

private theorem inStep_empty : (∅ : SubsetStore).InStep :=
  filed_empty.inStep_iff.mpr fun _ ⟨_, h⟩ => nomatch h

theorem KeepsNames.of_prefix {earlier calls : List SubsetCall} (h : KeepsNames calls)
    (hle : earlier <+: calls) : KeepsNames earlier :=
  fun first call hfirst => h first call (hfirst.trans hle)

private theorem KeepsNames.inStep_run {calls : List SubsetCall} (h : KeepsNames calls) :
    (run calls).InStep := by
  induction calls using List.reverseRecOn with
  | nil => exact inStep_empty
  | append_singleton earlier call ih =>
    rw [run_append]
    have hearlier : (run earlier).InStep := ih (h.of_prefix (List.prefix_append ..))
    exact (hearlier.act_iff (filed_run earlier) call).mpr (h earlier call List.prefix_rfl)

/-- After any calls the subsets stand under their own ids and names, and no name leads to a subset
that is not stored with it. The dictionaries were in step throughout exactly if no call took the name
of another subset; then each stored subset is found by its id and by its name, no two have one name,
and the next call leaves all others where they are found exactly if it takes no name either. -/
theorem inStep_iff_keepsNames (calls : List SubsetCall) :
    (run calls).Filed ∧
      ((∀ earlier, earlier <+: calls → (run earlier).InStep) ↔ KeepsNames calls) ∧
      (KeepsNames calls →
        (∀ subset, (run calls).Has subset → (run calls).get? subset.id = some subset ∧
          (run calls).byName.get? subset.name = some subset) ∧
        (∀ subset other, (run calls).Has subset → (run calls).Has other →
          subset.name = other.name → subset = other) ∧
        ∀ call, (∀ other, (run calls).Has other → other.id ≠ call.subset.id →
          (run calls).Keeps call other) ↔ ¬ (run calls).Takes call) := by
  have hfiled : (run calls).Filed := filed_run calls
  refine ⟨hfiled, ⟨fun hsteps earlier call hle => ?_, fun h earlier hle => ?_⟩,
    fun h => ⟨fun subset hsubset => ?_, ?_, ?_⟩⟩
  · have hbefore : (run earlier).InStep :=
      hsteps earlier ((List.prefix_append ..).trans hle)
    have hafter : ((run earlier).act call).InStep := run_append earlier call ▸ hsteps _ hle
    exact (hbefore.act_iff (filed_run earlier) call).mp hafter
  · exact (h.of_prefix hle).inStep_run
  · exact ⟨hfiled.has_iff.mp hsubset, (h.inStep_run ..).mpr ⟨hsubset, rfl⟩⟩
  · exact fun _ _ hsubset hother => h.inStep_run.eq_of_name_eq hsubset hother
  · exact fun call => h.inStep_run.keeps_iff hfiled call

/-- A subset named "Burn" is no longer found by its name once another is updated to that name. -/
theorem inStep_iff_keepsNames_burn :
    ¬ ∀ earlier, earlier <+: [.create ⟨"1", "Burn", Query.all⟩, .update ⟨"2", "Burn", Query.none⟩] →
      (run earlier).InStep := by
  rw [(inStep_iff_keepsNames _).2.1]
  intro hkeeps
  have hburn : (run [.create ⟨"1", "Burn", Query.all⟩]).byName.get? "Burn" =
      some ⟨"1", "Burn", Query.all⟩ := rfl
  exact hkeeps [.create ⟨"1", "Burn", Query.all⟩] _ List.prefix_rfl
    ⟨trivial, _, hburn, by decide⟩

end SubsetStore

end CardSearch
