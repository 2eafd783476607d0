import CardSearch.Store.Basic

/-!
# Waiting for several loads

Whoever waits polls the loads in turn, passes over those it has seen end, and gives up at the
first error.
-/

namespace CardSearch

/-- A load that is waited for, and whether it has been seen to end well. -/
structure Awaited where
  load : LoadId
  done : Bool := false
  deriving DecidableEq, Repr

/-- What has become of waiting. -/
inductive Progress (α β : Type)
  | pending (waiting : α)
  | ready (value : β)
  | failed (error : LoadError)

namespace CardStore

def pollAll (source : Source) (s : CardStore) :
    List Awaited → CardStore × Except LoadError (List Awaited)
  | [] => (s, .ok [])
  | a :: rest =>
    if a.done then
      let (s, others) := s.pollAll source rest
      (s, others.map (a :: ·))
    else
      let s := s.poll source a.load
      match s.result? a.load with
      | some (.error e) => (s, .error e)
      | some (.ok _) =>
        let (s, others) := s.pollAll source rest
        (s, others.map ({ a with done := true } :: ·))
      | none =>
        let (s, others) := s.pollAll source rest
        (s, others.map (a :: ·))

end CardStore

/-- Loads of properties and of a sorter that are waited for together. -/
structure Waiting where
  columns : List Awaited
  sorter : LoadId
  sorterSeen : Option Sorter := none
  deriving Repr

namespace Waiting

def begin (s : CardStore) (properties : List Property) (order : SortOrder) :
    CardStore × Waiting :=
  let (s, sorter) := s.requestSorter order
  let (s, ids) := s.requestProperties properties
  (s, { columns := ids.map (fun id => { load := id }), sorter })

def sorterOf : Loaded → Sorter
  | .sorter sorter => sorter
  | .column => .name

def poll (source : Source) (s : CardStore) (w : Waiting) :
    CardStore × Progress Waiting Sorter :=
  match s.pollAll source w.columns with
  | (s, .error e) => (s, .failed e)
  | (s, .ok columns) =>
    let finish (s : CardStore) (sorter? : Option Sorter) : CardStore × Progress Waiting Sorter :=
      match sorter? with
      | some sorter =>
        if columns.all (·.done) then (s, .ready sorter)
        else (s, .pending { w with columns, sorterSeen := some sorter })
      | none => (s, .pending { w with columns })
    match w.sorterSeen with
    | some sorter => finish s (some sorter)
    | none =>
      let s := s.poll source w.sorter
      match s.result? w.sorter with
      | some (.error e) => (s, .failed e)
      | some (.ok loaded) => finish s (some (sorterOf loaded))
      | none => finish s none

end Waiting

end CardSearch
