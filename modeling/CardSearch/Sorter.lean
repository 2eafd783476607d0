import CardSearch.SortIndex.Basic

/-!
# Putting matches in order

The records of the catalog already stand in the order of their names. Every other order comes from an
index in a file of its own. Running an index backwards turns the groups around and leaves the order
inside each of them.
-/

namespace CardSearch

/-- The order in which the records of a result stand. -/
inductive SortOrder
  | cmc | name | releasedAt
  deriving DecidableEq, Repr

namespace SortOrder

instance : Inhabited SortOrder := ⟨name⟩

def all : List SortOrder := [cmc, name, releasedAt]

def label : SortOrder → String
  | cmc => "cmc" | name => "name" | releasedAt => "released_at"

def ofLabel? (s : String) : Option SortOrder := all.find? (·.label == s)

def file? : SortOrder → Option String
  | name => none
  | order => some ("card_" ++ order.label ++ ".sort")

end SortOrder

namespace SortIndex

def groupsInDirection (index : SortIndex) (ascending : Bool) : List (List SortEntry) :=
  if ascending then index.groups else index.groups.reverse

/-- Whether an entry names a record of the catalog that matches, and, in an index of versions, the
version that was chosen for it. -/
def selects (index : SortIndex) (version? : Nat → Option Nat) (length : Nat) (e : SortEntry) :
    Bool :=
  e.record.toNat < length &&
    match index.kind with
    | .byRecord => (version? e.record.toNat).isSome
    | .byVersion => version? e.record.toNat == some e.version.toNat

def sort (index : SortIndex) (version? : Nat → Option Nat) (length : Nat) (ascending : Bool) :
    List Nat :=
  ((index.groupsInDirection ascending).flatten.filter (index.selects version? length)).map
    (·.record.toNat)

/-- How many entries name no record below `length`. -/
def strayCount (index : SortIndex) (length : Nat) : Nat :=
  index.entries.countP (fun e => length ≤ e.record.toNat)

end SortIndex

/-- What puts matches in order. -/
inductive Sorter
  | name
  | index (index : SortIndex)
  deriving DecidableEq, Repr

namespace Sorter

instance : Inhabited Sorter := ⟨name⟩

def ofIndex (order : SortOrder) (i : SortIndex) : Except IndexError Sorter :=
  if i.order = order.label then .ok (index i)
  else .error (.orderMismatch order.label i.order)

def order? : Sorter → Option SortOrder
  | name => some .name
  | index i => SortOrder.ofLabel? i.order

def creationTime? : Sorter → Option UInt64
  | name => none
  | index i => some i.creationTime

def sort (sorter : Sorter) (version? : Nat → Option Nat) (length : Nat) (ascending : Bool) :
    List Nat :=
  match sorter with
  | name =>
    let records := List.range length
    (if ascending then records else records.reverse).filter (fun r => (version? r).isSome)
  | index i => i.sort version? length ascending

def strays? (sorter : Sorter) (length : Nat) : Option (String × Nat) :=
  match sorter with
  | name => none
  | index i => if i.strayCount length = 0 then none else some (i.order, i.strayCount length)

end Sorter

end CardSearch
