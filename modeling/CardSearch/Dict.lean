/-!
# Dictionaries keyed by text

A dictionary lists its entries in the order in which their keys first came in. Putting a value
under a present key replaces it in place, so no key stands twice in a dictionary that is built
from the empty one.
-/

namespace CardSearch

/-- Values filed under texts. -/
structure Dict (α : Type) where
  entries : List (String × α) := []

namespace Dict

variable {α : Type}

instance : Inhabited (Dict α) := ⟨{}⟩

def get? (d : Dict α) (key : String) : Option α :=
  (d.entries.find? (·.1 == key)).map (·.2)

def contains (d : Dict α) (key : String) : Bool := d.entries.any (·.1 == key)

/-- Entries with the value under `key` replaced, or added at the end. -/
def insertInto (key : String) (value : α) : List (String × α) → List (String × α)
  | [] => [(key, value)]
  | e :: es => if e.1 == key then (key, value) :: es else e :: insertInto key value es

def insert (d : Dict α) (key : String) (value : α) : Dict α := ⟨insertInto key value d.entries⟩

def erase (d : Dict α) (key : String) : Dict α := ⟨d.entries.filter (·.1 != key)⟩

def size (d : Dict α) : Nat := d.entries.length

/-- The dictionary of a list of entries; of two entries under one key the later counts. -/
def ofList (entries : List (String × α)) : Dict α :=
  entries.foldl (fun d e => d.insert e.1 e.2) {}

theorem contains_eq_isSome (d : Dict α) (key : String) : d.contains key = (d.get? key).isSome := by
  simp [contains, get?, Option.isSome_map, List.isSome_find?]

@[simp] theorem get?_empty (key : String) : (⟨[]⟩ : Dict α).get? key = none := rfl

theorem get?_insert (d : Dict α) (key other : String) (value : α) :
    (d.insert key value).get? other = if key = other then some value else d.get? other := by
  obtain ⟨es⟩ := d
  simp only [get?, insert]
  induction es with
  | nil => by_cases h : key = other <;> simp [insertInto, h]
  | cons e es ih =>
    by_cases he : e.1 = key
    · by_cases h : key = other <;> simp_all [insertInto]
    · by_cases h : e.1 = other
      · have : ¬ key = other := fun hk => he (h.trans hk.symm)
        simp_all [insertInto]
      · simp_all [insertInto]

theorem get?_erase (d : Dict α) (key other : String) :
    (d.erase key).get? other = if key = other then none else d.get? other := by
  obtain ⟨es⟩ := d
  simp only [get?, erase, List.find?_filter]
  by_cases h : key = other
  · subst h
    simp [List.find?_eq_none]
  · rw [if_neg h]
    congr 2
    funext e
    by_cases he : e.1 = other
    · simp [he, Ne.symm h]
    · simp [he]

end Dict

end CardSearch
