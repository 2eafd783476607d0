import CardSearch.Proofs.Engine.Execution
import CardSearch.Proofs.Evaluation.Records
import CardSearch.Proofs.SortIndex.Listing

/-!
# Loading at once and reading in turn

An execution asks for all files at once and takes them as they come. Whatever comes first, it finds
what is found by reading the files of the properties one after the other into a catalog, scanning it
and sorting the matches with the index of the order. The lists of a result agree position by
position.
-/

namespace CardSearch

/-- A result lists matches of a scan: at each position stand a record, the least version that was
found for it, and its name. -/
structure QueryResult.Lists (result : QueryResult) (ctx : EvalContext)
    (firsts : Array (Option Nat)) : Prop where
  length_versions : result.versions.length = result.records.length
  length_names : result.names.length = result.records.length
  version {i record : Nat} : result.records[i]? = some record → ∃ version,
    result.versions[i]? = some version ∧ firsts[record]? = some (some version) ∧
      ∃ (ev : Evaluator) (versions : List Nat), (ev.evaluate ctx record).versions = .ok versions ∧
        IsLeast {v | v ∈ versions} version
  name {i record : Nat} : result.records[i]? = some record →
    result.names[i]? = some ((ctx.catalog.name? record).getD "")

namespace Engine

variable {ctx : EvalContext} {firsts : Array (Option Nat)}

theorem isLeast_of_scan {selection : SetSelection} {bytes record version : Nat}
    (h : (Scan.all ctx selection bytes).firsts = .ok firsts)
    (hversion : firsts[record]? = some (some version)) :
    ∃ (ev : Evaluator) (versions : List Nat), (ev.evaluate ctx record).versions = .ok versions ∧
      IsLeast {v | v ∈ versions} version := by
  obtain ⟨hrecord, -⟩ := Array.getElem?_eq_some_iff.1 hversion
  obtain ⟨ev, versions, heval, hfirst⟩ := (Scan.firsts_all h).2 record hrecord
  rw [hversion, Option.some_inj] at hfirst
  have hascending := Evaluator.ascending_of_evaluate heval
  exact ⟨ev, versions, heval, (head?_eq_some_iff_isLeast hascending version).1 hfirst.symm⟩

theorem lists_resultOf {selection : SetSelection} {bytes : Nat}
    (h : (Scan.all ctx selection bytes).firsts = .ok firsts) (key : RunKey) (x : Sorter) :
    (resultOf ctx.catalog key x firsts).Lists ctx firsts where
  length_versions := List.length_map _
  length_names := List.length_map _
  version {i record} hrecord := by
    obtain ⟨-, hmatch⟩ := Sorter.isSome_of_mem_sort (List.mem_of_getElem? hrecord)
    obtain ⟨version, hversion⟩ := Option.isSome_iff_exists.1 hmatch
    have hfirst : firsts[record]? = some (some version) := Option.join_eq_some_iff.1 hversion
    refine ⟨version, ?_, hfirst, isLeast_of_scan h hfirst⟩
    have hget := congrArg (Option.map fun r => (firsts[r]?.join).getD 0) hrecord
    rw [Option.map_some, hversion] at hget
    exact List.getElem?_map.trans hget
  name {i record} hrecord :=
    List.getElem?_map.trans (congrArg (Option.map fun r => (ctx.catalog.name? r).getD "") hrecord)

/-- An outcome that is a result comes from a scan that ended well. -/
theorem eq_resultOf_of_outcomeOn {catalog : Catalog} {subsets : SubsetStore}
    {settings : EngineSettings} {key : RunKey} {x : Sorter} {c : Condition} {result : QueryResult}
    (h : outcomeOn catalog subsets settings key x c = .ok result) : ∃ firsts,
      (Scan.all ⟨catalog, subsets, c⟩ settings.selection settings.arenaBytes).firsts = .ok firsts ∧
        resultOf catalog key x firsts = result := by
  unfold outcomeOn at h
  split at h
  · cases h
  · next firsts hscan => exact ⟨firsts, hscan, Except.ok.inj h⟩

/-- What an execution has come to, if it has ended. -/
def outcomeOf (r : Engine × RunId) : Option RunOutcome := r.1.result? r.2

/-- Over a source with the files that a query needs, which belong together, an execution on a store
with nothing loaded comes to the outcome of reading these files in any order, scanning the catalog
that they make up and sorting the matches: over the whole source, and over whatever the fetches have
got each time that it is polled, as soon as each of them has been answered after the first time. A
result lists matches, and none of them twice if the sorter lists no entry twice. -/
theorem execution_refines_reading {files : FileSet} {source : Source} {q : Query} {order : SortOrder}
    {ps : List Property} (refetchInterval : Nat) (subsets : SubsetStore) (settings : EngineSettings)
    (ascending : Bool) :
    let e : Engine := { store := { refetchInterval }, subsets, settings }
    let request : RunRequest := ⟨q, order, ascending⟩
    files.HeldBy source (e.needed q) order → (∀ p : Property, p ∈ ps ↔ p.LoadedFor (e.needed q)) →
    ∃ catalog sorter, source.catalog? ps = some catalog ∧ source.sorter? order = some sorter ∧
      let ctx : EvalContext := ⟨catalog, subsets, q.condition⟩
      let outcome := outcomeOn catalog subsets settings ⟨q.digest, order, ascending⟩ sorter q.condition
      outcomeOf (e.execute source request) = some outcome ∧
      (∀ rounds : List Source, (∀ part ∈ rounds, part.PartOf source) →
        (∀ other, outcomeOf (e.executeOver rounds request) = some other → other = outcome) ∧
        (rounds ≠ [] → (∀ target : LoadTarget, target.AskedFor (e.needed q) order →
            target.AnsweredIn rounds.tail) →
          outcomeOf (e.executeOver rounds request) = some outcome)) ∧
      ∀ result, outcome = .ok result → ∃ firsts,
        (Scan.all ctx settings.selection settings.arenaBytes).firsts = .ok firsts ∧
        result.Lists ctx firsts ∧ (sorter.Distinct → result.records.Nodup) := by
  intro e request hheld hps
  refine ⟨_, _, hheld.catalog?_eq hps, hheld.sorter?_eq, ?_⟩
  intro ctx outcome
  refine ⟨FileSet.result?_execute refetchInterval subsets settings ascending hheld,
    fun rounds hparts => ⟨fun other hother => ?_, fun hrounds hanswered => ?_⟩, fun result hok => ?_⟩
  · exact FileSet.eq_of_result?_executeOver refetchInterval subsets settings ascending hheld hparts
      hother
  · exact FileSet.result?_executeOver refetchInterval subsets settings ascending hheld hparts hrounds
      hanswered
  · obtain ⟨firsts, hscan, rfl⟩ := eq_resultOf_of_outcomeOn hok
    exact ⟨firsts, hscan, lists_resultOf hscan _ _, Sorter.nodup_sort⟩

/-- An index by cost: the last of three cards costs less than the others. -/
def printedIndex : SortIndex := ⟨.byRecord, 7, "cmc", [[⟨2, 0⟩], [⟨0, 0⟩, ⟨1, 0⟩]]⟩

/-- What the files of three cards hold: the first was printed twice, the last three times. -/
def printed : FileSet where
  time := 7
  length := 3
  values p :=
    if p = .name then [.texts ["A"], .texts ["B"], .texts ["C"]]
    else [.texts ["S", "T"], .texts ["S"], .texts ["S", "T", "U"]]
  sorter := .index printedIndex

def printedSource : Source := fun file =>
  if file = "card_name.json" then some (.ok (Bytes.ofText "[7,[[\"A\"],[\"B\"],[\"C\"]]]"))
  else if file = "card_set.json" then
    some (.ok (Bytes.ofText "[7,[[\"S\",\"T\"],[\"S\"],[\"S\",\"T\",\"U\"]]]"))
  else if file = "card_cmc.sort" then
    some (.ok (SortIndex.headerBytes "cmc" .byRecord 7 2 ++ [1, 0, 0, 0, 3, 0, 0, 0, 2, 0, 0, 0, 1, 0]))
  else none

def reprints : Query := ⟨{.reprint}, .leaf (.compare .eq .reprint (.bool true))⟩

theorem mem_iff_loadedFor_reprints (p : Property) :
    p ∈ [Property.set, .name] ↔ p.LoadedFor [.name, .reprint] := by
  cases p <;> decide

theorem heldBy_printedSource : printed.HeldBy printedSource [.name, .reprint] .cmc where
  file {p} hp := by
    obtain rfl | rfl : p = .set ∨ p = .name := by simpa using (mem_iff_loadedFor_reprints p).2 hp
    · exact ⟨_, _, rfl, rfl, rfl⟩
    · exact ⟨_, _, rfl, rfl, rfl⟩
  size {p} _ := by
    unfold printed
    dsimp only
    split <;> rfl
  byName hname := by cases hname
  index {name} hname := by
    obtain rfl : "card_cmc.sort" = name := Option.some.inj hname
    exact ⟨_, printedIndex, rfl, rfl, rfl, rfl⟩

/-- Fetches that are answered one at a time, the set before the index and the names. -/
def oneByOne : List Source := ["", "card_set.json", "card_cmc.sort", "card_name.json"].map
  fun name file => if file = name then printedSource file else none

private theorem partOf_of_mem_oneByOne (part : Source) (hpart : part ∈ oneByOne) :
    part.PartOf printedSource := by
  obtain ⟨name, -, rfl⟩ := List.mem_map.1 hpart
  intro file
  by_cases hfile : file = name
  · exact .inr (if_pos hfile)
  · exact .inl (if_neg hfile)

private theorem answeredIn_oneByOne (target : LoadTarget)
    (htarget : target.AskedFor [.name, .reprint] .cmc) : target.AnsweredIn oneByOne.tail := by
  intro file hfile
  have hmem : file ∈ ["card_set.json", "card_cmc.sort", "card_name.json"] := by
    cases target with
    | column p =>
      obtain rfl | rfl : p = .set ∨ p = .name := by
        simpa using (mem_iff_loadedFor_reprints p).2 htarget
      all_goals
        cases hfile
        decide
    | sorter order =>
      obtain rfl : order = .cmc := htarget
      cases hfile
      decide
  have hsome : ∀ file ∈ ["card_set.json", "card_cmc.sort", "card_name.json"],
      printedSource file ≠ none := by simp [printedSource]
  refine ⟨_, List.mem_map_of_mem hmem, ?_⟩
  rw [if_pos rfl]
  exact hsome file hmem

/-- The cheapest card comes first. Of both cards the second printing is the first that is found. -/
theorem execution_refines_reading_reprints :
    let e : Engine := { store := { refetchInterval := 0 } }
    let key : RunKey := ⟨reprints.digest, .cmc, true⟩
    printed.HeldBy printedSource (e.needed reprints) .cmc ∧
      (∀ p : Property, p ∈ [Property.set, .name] ↔ p.LoadedFor (e.needed reprints)) ∧
      ∃ catalog sorter, printedSource.catalog? [.set, .name] = some catalog ∧
        printedSource.sorter? .cmc = some sorter ∧ sorter.Distinct ∧
        let outcome := outcomeOn catalog ∅ {} key sorter reprints.condition
        outcomeOf (e.executeOver oneByOne ⟨reprints, .cmc, true⟩) = some outcome ∧
        outcome.toOption.map (fun r => (r.records, r.versions, r.names)) =
          some ([2, 0], [1, 1], ["C", "A"]) := by
  intro e key
  have hneeded : e.needed reprints = [.name, .reprint] := by decide
  have hheld : printed.HeldBy printedSource (e.needed reprints) .cmc := by
    rw [hneeded]
    exact heldBy_printedSource
  have hps : ∀ p : Property, p ∈ [Property.set, .name] ↔ p.LoadedFor (e.needed reprints) := by
    rw [hneeded]
    exact mem_iff_loadedFor_reprints
  obtain ⟨catalog, sorter, hcatalog, hsorter, -, hrounds, -⟩ :=
    execution_refines_reading 0 ∅ {} true hheld hps
  refine ⟨hheld, hps, catalog, sorter, hcatalog, hsorter, ?_, ?_, ?_⟩
  · cases hsorter.symm.trans hheld.sorter?_eq
    change List.Nodup _
    decide
  · refine (hrounds oneByOne partOf_of_mem_oneByOne).2 nofun ?_
    rw [hneeded]
    exact answeredIn_oneByOne
  · cases hcatalog.symm.trans (hheld.catalog?_eq hps)
    cases hsorter.symm.trans hheld.sorter?_eq
    decide +kernel

end Engine

end CardSearch
