import CardSearch.Proofs.Engine.Execution
import CardSearch.Proofs.Evaluation.Locality
import CardSearch.Proofs.Query.Preparation

/-!
# Edits of subsets

A prepared query refers to a subset by its id, so an edit of the subset shows at the next search. The
properties of the query stay those of the subset as it was: what the edited one reads is seen only
where they load it. Preparing the text again gives the same condition with the properties of the
subset as it is.
-/

namespace CardSearch

namespace Catalog

variable {c c' : Catalog} {record : Nat}

theorem get_congr {p : Property} (h : c.columns.get? p = c'.columns.get? p) :
    c.get record p = c'.get record p := by
  unfold get
  rw [h]

/-- The number of versions depends on the columns of the properties of versions. -/
theorem versionCount?_congr
    (h : ∀ p ∈ Property.perVersion, c.columns.get? p = c'.columns.get? p) :
    c.versionCount? record = c'.versionCount? record := by
  have hmap : Property.perVersion.map (c.get record) = Property.perVersion.map (c'.get record) :=
    List.map_congr_left fun p hp => get_congr (h p hp)
  rw [versionCount?, versionCount?, hmap]

theorem getForVersion_congr {version : Nat} {p : Property}
    (h : c.columns.get? p = c'.columns.get? p) :
    c.getForVersion record version p = c'.getForVersion record version p := by
  unfold getForVersion
  rw [get_congr h]

end Catalog

namespace Scan

variable {ctx ctx' : EvalContext}

def found (scan : Scan) : Except EvalCause (Array (Option Nat)) := scan.firsts.mapError (·.cause)

private theorem found_scanFrom_congr
    (h : ∀ (ev : Evaluator) (record : Nat), ev.evaluate ctx record = ev.evaluate ctx' record)
    (ev : Evaluator) (done : Array (Option Nat)) (missing : Array String) (n : Nat) :
    (scanFrom ctx ev done missing n).found = (scanFrom ctx' ev done missing n).found := by
  induction n generalizing ev done missing with
  | zero => rfl
  | succ n ih =>
    rw [scanFrom, scanFrom, ← h]
    cases (ev.evaluate ctx done.size).versions with
    | error cause => rfl
    | ok versions => exact ih ..

private theorem found_all_congr (hlength : ctx.catalog.length? = ctx'.catalog.length?)
    (h : ∀ (ev : Evaluator) (record : Nat), ev.evaluate ctx record = ev.evaluate ctx' record)
    (selection : SetSelection) (bytes : Nat) :
    (all ctx selection bytes).found = (all ctx' selection bytes).found := by
  rw [all, all, ← hlength]
  cases ctx.catalog.length? with
  | none => rfl
  | some length => exact found_scanFrom_congr h ..

end Scan

/-- Two runs have found the same: the same records in the same order, each with the same version, or
an error of the same cause. -/
inductive SameFound : RunOutcome → RunOutcome → Prop
  | found {r r' : QueryResult} (hrecords : r.records = r'.records)
    (hversions : r.versions = r'.versions) : SameFound (.ok r) (.ok r')
  | failed {error error' : EvalError} (hcause : error.cause = error'.cause) :
    SameFound (.error (.evaluation error)) (.error (.evaluation error'))

theorem Engine.sameFound_outcomeOn {catalog catalog' : Catalog} {subsets subsets' : SubsetStore}
    {settings : EngineSettings} {key key' : RunKey} {x : Sorter} {c c' : Condition}
    (hkey : key.ascending = key'.ascending) (hlength : catalog.length? = catalog'.length?)
    (hfound : (Scan.all ⟨catalog, subsets, c⟩ settings.selection settings.arenaBytes).found =
      (Scan.all ⟨catalog', subsets', c'⟩ settings.selection settings.arenaBytes).found) :
    SameFound (outcomeOn catalog subsets settings key x c)
      (outcomeOn catalog' subsets' settings key' x c') := by
  unfold Scan.found at hfound
  unfold outcomeOn
  generalize (Scan.all ⟨catalog, subsets, c⟩ settings.selection settings.arenaBytes).firsts = firsts,
    (Scan.all ⟨catalog', subsets', c'⟩ settings.selection settings.arenaBytes).firsts = firsts' at *
  cases firsts with
  | error error =>
    cases firsts' with
    | error error' => exact .failed (Except.error.inj hfound)
    | ok firsts' => cases hfound
  | ok firsts =>
    cases firsts' with
    | error error' => cases hfound
    | ok firsts' =>
      cases hfound
      have hrecords : (resultOf catalog key x firsts).records =
          (resultOf catalog' key' x firsts).records := by
        simp only [resultOf, hkey, hlength]
      exact .found hrecords (congrArg (List.map fun r => (firsts[r]?.join).getD 0) hrecords)

/-- Two lists of properties load alike what a condition reads: something or nothing at all, the same
properties of versions, and the same of those that the leaves read which the condition comes to. -/
structure SubsetStore.LoadsAlike (subsets : SubsetStore) (c : Condition)
    (needed needed' : List Property) : Prop where
  eq_nil_iff : needed = [] ↔ needed' = []
  version {p : Property} : p ∈ Property.perVersion → (p.LoadedFor needed ↔ p.LoadedFor needed')
  leaf {l : Leaf} : subsets.Consults c l →
    (l.property.source.LoadedFor needed ↔ l.property.source.LoadedFor needed')

theorem SubsetStore.LoadsAlike.of_eq {subsets : SubsetStore} {c : Condition}
    {needed needed' : List Property} (h : needed = needed') :
    subsets.LoadsAlike c needed needed' := by
  subst h
  exact ⟨.rfl, fun _ => .rfl, fun _ => .rfl⟩

namespace Dataset

open Engine

theorem sameFound_of_loadsAlike (d : Dataset) {subsets : SubsetStore} {c : Condition}
    {needed needed' : List Property} (h : subsets.LoadsAlike c needed needed')
    (settings : EngineSettings) (key : RunKey) (x : Sorter) :
    SameFound (outcomeOn (d.catalog needed) subsets settings key x c)
      (outcomeOn (d.catalog needed') subsets settings key x c) := by
  have hlength : (d.catalog needed).length? = (d.catalog needed').length? := by
    have hsize (needed : List Property) (p : Property) (hp : p.LoadedFor needed) := d.size hp.isStored
    rw [d.catalog_eq x, d.catalog_eq x, FileSet.length?_catalog (hsize needed),
      FileSet.length?_catalog (hsize needed')]
    simp only [h.eq_nil_iff]
  have hcolumn {p : Property} (hp : p.source.LoadedFor needed ↔ p.source.LoadedFor needed') :
      (d.catalog needed).columns.get? p = (d.catalog needed').columns.get? p := by
    simp only [d.catalog_eq x, FileSet.get?_catalog, hp]
  have hversion : ∀ p ∈ Property.perVersion,
      (d.catalog needed).columns.get? p = (d.catalog needed').columns.get? p := by
    intro p hp
    refine hcolumn ?_
    rw [Property.source_eq_of_perVersion hp]
    exact h.version hp
  refine sameFound_outcomeOn rfl hlength (Scan.found_all_congr hlength (fun ev record => ?_) _ _)
  refine ev.evaluate_congr rfl rfl ?_ fun l hl => ?_
  · exact congrArg (·.getD 1) (Catalog.versionCount?_congr hversion)
  · funext version
    exact congrArg l.matchesValues (Catalog.getForVersion_congr (hcolumn (h.leaf hl)))

/-- What a query comes to over all files, executed on a store with nothing loaded. -/
def Finds (d : Dataset) (e : Engine) (q : Query) (order : SortOrder) (ascending : Bool)
    (outcome : RunOutcome) : Prop :=
  let r := e.execute d.source ⟨q, order, ascending⟩
  r.1.result? r.2 = some outcome

/-- A subset is replaced by another of its id and its name. A query that was prepared before keeps
the condition that its text is prepared to now. Executed now, both come to what this condition comes
to with the new subset, each on the columns that its own properties load. Where these load alike
what the condition reads, both find the same. -/
theorem edit_reaches_prepared (d : Dataset) {order : SortOrder} {x : Sorter}
    (hsorts : d.Sorts order x) (refetchInterval : Nat) (settings : EngineSettings) (ascending : Bool)
    (pool : Option Pool) (text : String) {subsets : SubsetStore} {old new : Subset}
    (hold : subsets.get? new.id = some old) (hname : old.name = new.name)
    (hnamed : (subsets.byName.get? new.name).map Subset.id = some new.id) :
    let edited := subsets.update new
    let e : Engine := { store := { refetchInterval }, subsets := edited, settings }
    let before := Command.prepare subsets pool text
    let now := Command.prepare edited pool text
    let found (needed : List Property) : RunOutcome :=
      outcomeOn (d.catalog needed) edited settings ⟨now.digest, order, ascending⟩ x now.condition
    before.condition = now.condition ∧
      d.Finds e before order ascending (found (e.needed before)) ∧
      d.Finds e now order ascending (found (e.needed now)) ∧
      (edited.LoadsAlike now.condition (e.needed before) (e.needed now) →
        SameFound (found (e.needed before)) (found (e.needed now))) := by
  intro edited e before now found
  have hcondition : before.condition = now.condition :=
    (Query.condition_prepare_congr (SubsetStore.sameIds_update hold hname hnamed) pool text).symm
  have hbefore := d.result?_execute hsorts refetchInterval edited settings before ascending
  have hnow := d.result?_execute hsorts refetchInterval edited settings now ascending
  have hdigest : before.digest = now.digest := congrArg Condition.digest hcondition
  rw [hcondition, hdigest] at hbefore
  exact ⟨hcondition, hbefore, hnow, fun hload => d.sameFound_of_loadsAlike hload settings _ x⟩

def sideways : Dataset where
  source name := some (.ok (if name = Property.landscape.file then
      [0x5b, 0x37, 0x2c, 0x5b, 0x74, 0x72, 0x75, 0x65, 0x5d, 0x5d]
    else [0x5b, 0x37, 0x2c, 0x5b, 0x6e, 0x75, 0x6c, 0x6c, 0x5d, 0x5d]))
  time := 7
  length := 1
  values p := if p = .landscape then [.one (.bool true)] else [.missing]
  file {p} _ := by
    by_cases hp : p = .landscape
    · subst hp
      exact ⟨_, .list [.bool true], rfl, rfl, rfl⟩
    · have hfile : p.file ≠ Property.landscape.file := fun heq =>
        hp (LoadTarget.column.inj (LoadTarget.file_injective heq))
      refine ⟨_, .list [.null], by rw [if_neg hfile], rfl, ?_⟩
      rw [if_neg hp]
      rfl
  size {p} _ := by split <;> rfl

def picks (l : Leaf) : Subset := ⟨"s", "Picks", ⟨{l.property}, .leaf l⟩⟩

def inLandscape (b : Bool) : Leaf := .compare .eq .landscape (.bool b)

/-- An edit that reads the same property reaches the prepared query. -/
theorem edit_reaches_prepared_landscape :
    let subsets : SubsetStore := (∅ : SubsetStore).insert (picks (inLandscape false))
    let edited := subsets.update (picks (inLandscape true))
    let e : Engine := { store := { refetchInterval := 0 }, subsets := edited }
    ∃ outcome outcome',
      sideways.Finds e (Command.prepare subsets none "subset:Picks") .name true outcome ∧
      sideways.Finds e (Command.prepare edited none "subset:Picks") .name true outcome' ∧
      SameFound outcome outcome' ∧ outcome.toOption.map QueryResult.records = some [0] := by
  intro subsets edited e
  have hsorts : sideways.Sorts .name .name := rfl
  have hold : subsets.get? (picks (inLandscape true)).id = some (picks (inLandscape false)) := rfl
  obtain ⟨-, hbefore, hnow, hsame⟩ :=
    sideways.edit_reaches_prepared hsorts 0 {} true none "subset:Picks" hold rfl rfl
  have hneeded : e.needed (Command.prepare subsets none "subset:Picks") =
      e.needed (Command.prepare edited none "subset:Picks") := by decide +kernel
  refine ⟨_, _, hbefore, hnow, hsame (.of_eq hneeded), ?_⟩
  decide +kernel

/-- An edit that reads another property does not: the query that was prepared before does not load
it, and finds nothing where the one that is prepared now finds a record. -/
theorem edit_missed :
    let subsets : SubsetStore := (∅ : SubsetStore).insert (picks (.parity .odd .cmc))
    let edited := subsets.update (picks (inLandscape true))
    let e : Engine := { store := { refetchInterval := 0 }, subsets := edited }
    ∃ outcome outcome',
      sideways.Finds e (Command.prepare subsets none "subset:Picks") .name true outcome ∧
      sideways.Finds e (Command.prepare edited none "subset:Picks") .name true outcome' ∧
      outcome.toOption.map QueryResult.records = some [] ∧
      outcome'.toOption.map QueryResult.records = some [0] := by
  intro subsets edited e
  have hsorts : sideways.Sorts .name .name := rfl
  refine ⟨_, _, sideways.result?_execute hsorts 0 edited {} _ true,
    sideways.result?_execute hsorts 0 edited {} _ true, ?_, ?_⟩
  · decide +kernel
  · decide +kernel

end Dataset

end CardSearch
