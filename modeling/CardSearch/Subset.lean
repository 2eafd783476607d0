import CardSearch.Condition
import CardSearch.Dict

/-!
# Stored subsets

A subset is a query kept under an id and a name. Conditions refer to it by id, typed queries by
name. Both dictionaries hold the whole subset; storing one files it in both.
-/

namespace CardSearch

structure Subset where
  id : String
  name : String
  query : Query
  deriving DecidableEq, Repr

/-- Stored subsets, by id and by name. -/
structure SubsetStore where
  byId : Dict Subset := {}
  byName : Dict Subset := {}

/-- Why a subset is not created: its id or its name belongs to another. -/
inductive SubsetConflict
  | id (id : String)
  | name (name : String)
  deriving DecidableEq, Repr

namespace SubsetStore

instance : EmptyCollection SubsetStore := ⟨⟨{}, {}⟩⟩

instance : Inhabited SubsetStore := ⟨∅⟩

def get? (store : SubsetStore) (id : String) : Option Subset := store.byId.get? id

def size (store : SubsetStore) : Nat := store.byId.size

def insert (store : SubsetStore) (subset : Subset) : SubsetStore :=
  ⟨store.byId.insert subset.id subset, store.byName.insert subset.name subset⟩

/-- The subset of an id; if there is none, one that matches nothing is made and named after the
id. -/
def getOrCreate (store : SubsetStore) (id : String) : Subset × SubsetStore :=
  match store.get? id with
  | some subset => (subset, store)
  | none =>
    let subset : Subset := ⟨id, id, Query.none⟩
    (subset, store.insert subset)

/-- Stores a new subset, unless its id or its name is taken. -/
def create (store : SubsetStore) (subset : Subset) : Except SubsetConflict SubsetStore :=
  if store.byId.contains subset.id then .error (.id subset.id)
  else if store.byName.contains subset.name then .error (.name subset.name)
  else .ok (store.insert subset)

def update (store : SubsetStore) (subset : Subset) : SubsetStore :=
  match store.get? subset.id with
  | some old => insert { store with byName := store.byName.erase old.name } subset
  | none => store.insert subset

end SubsetStore

end CardSearch
