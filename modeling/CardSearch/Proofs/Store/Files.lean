import CardSearch.Proofs.Store.Generations

/-!
# Files that belong together

What is loaded for the properties of a search are the files of stored properties and the index of an
order. Where these are of one creation time and hold as many records, the catalog that they make up
does not depend on the order in which they are put in. A source with the files of all stored
properties that belong together has those that any search asks for.
-/

namespace CardSearch

/-- A property is loaded where these are needed: it is the source of one of them, or what tells of
reprints if they need no other property of versions that could. -/
def Property.LoadedFor (needed : List Property) (p : Property) : Prop :=
  (∃ r ∈ needed, r ≠ .reprint ∧ r.source = p) ∨
    .reprint ∈ needed ∧ .rarity ∉ needed ∧ .releasedAt ∉ needed ∧ p = .set

instance (needed : List Property) (p : Property) : Decidable (p.LoadedFor needed) :=
  inferInstanceAs (Decidable (_ ∨ _))

namespace LoadTarget

/-- A target is loaded where these properties are needed in an order. -/
def AskedFor (needed : List Property) (order : SortOrder) : LoadTarget → Prop
  | column p => p.LoadedFor needed
  | sorter other => other = order

def gives (x : Sorter) : LoadTarget → Loaded
  | column _ => .column
  | sorter _ => .sorter x

end LoadTarget

namespace Property

variable {needed : List Property} {p q : Property}

theorem source_eq_of_perVersion (h : q ∈ perVersion) : q.source = q := by
  revert h
  cases q <;> decide

theorem eq_of_source_eq (hq : q ∈ perVersion) (h : p.source = q) : p = q := by
  subst h
  revert hq
  cases p <;> decide

theorem LoadedFor.isStored (h : p.LoadedFor needed) : p.isStored = true := by
  rcases h with ⟨r, -, hr, rfl⟩ | ⟨-, -, -, rfl⟩
  · exact CardStore.isStored_source hr
  · rfl

theorem loadedFor_source (hp : p ∈ needed) (h : p ≠ .reprint) : p.source.LoadedFor needed :=
  .inl ⟨p, hp, h, rfl⟩

/-- A property of versions that is loaded is needed itself, or is the set that tells of reprints. -/
theorem LoadedFor.mem_or (h : q.LoadedFor needed) (hq : q ∈ perVersion) : q ∈ needed ∨ q = .set := by
  rcases h with ⟨r, hr, -, hsource⟩ | ⟨-, -, -, rfl⟩
  · exact .inl (eq_of_source_eq hq hsource ▸ hr)
  · exact .inr rfl

theorem exists_loadedFor (h : needed ≠ []) : ∃ p : Property, p.LoadedFor needed := by
  obtain ⟨p, hp⟩ := List.exists_mem_of_ne_nil needed h
  by_cases hreprint : p = .reprint
  · subst hreprint
    by_cases hrarity : .rarity ∈ needed
    · exact ⟨_, loadedFor_source hrarity nofun⟩
    · by_cases hreleased : .releasedAt ∈ needed
      · exact ⟨_, loadedFor_source hreleased nofun⟩
      · exact ⟨.set, .inr ⟨hp, hrarity, hreleased, rfl⟩⟩
  · exact ⟨_, loadedFor_source hp hreprint⟩

theorem mem_loaded : p ∈ all.filter (·.LoadedFor needed) ↔ p.LoadedFor needed := by
  simp [mem_all]

end Property

private theorem PropertyMap.ext {α : Type} {m m' : PropertyMap α} (h : ∀ p, m.get? p = m'.get? p) :
    m = m' := by
  obtain ⟨slots⟩ := m
  obtain ⟨slots'⟩ := m'
  congr 1
  refine Vector.ext fun i hi => ?_
  obtain ⟨p, hp⟩ := Property.exists_index ⟨i, hi⟩
  have hslot := h p
  simp only [PropertyMap.get?, hp] at hslot
  exact hslot

theorem Catalog.ext {c c' : Catalog} (hcolumns : ∀ q, c.columns.get? q = c'.columns.get? q)
    (hlength : c.length? = c'.length?) : c = c' := by
  obtain ⟨columns, length?⟩ := c
  obtain ⟨columns', length?'⟩ := c'
  exact congr (congrArg Catalog.mk (PropertyMap.ext hcolumns)) hlength

/-- What files of one creation time hold: the values of properties for so many records, and what
puts these in order. -/
structure FileSet where
  time : UInt64
  length : Nat
  values : Property → List Values
  sorter : Sorter

namespace FileSet

def column (files : FileSet) (q : Property) : Array Values :=
  q.columnOf (files.values q.source).toArray

def put (files : FileSet) (c : Catalog) (ps : List Property) : Catalog :=
  ps.foldl (fun c p => c.putStored p (files.values p).toArray) c

def catalog (files : FileSet) (needed : List Property) : Catalog :=
  files.put ∅ (Property.all.filter (·.LoadedFor needed))

/-- A source has the files that are loaded where these properties are needed in an order. -/
structure HeldBy (files : FileSet) (source : Source) (needed : List Property) (order : SortOrder) :
    Prop where
  file {p : Property} : p.LoadedFor needed → ∃ bytes data, source p.file = some (.ok bytes) ∧
    Payload.read? bytes = some ⟨files.time, data⟩ ∧ p.decode data = .ok (files.values p)
  size {p : Property} : p.LoadedFor needed → (files.values p).length = files.length
  byName : order.file? = none → files.sorter = .name
  index {name : String} : order.file? = some name → ∃ bytes index, source name = some (.ok bytes) ∧
    SortIndex.read bytes = .ok index ∧ index.creationTime = files.time ∧
    Sorter.ofIndex order index = .ok files.sorter

/-- A source has these files, however many records each of them holds. -/
structure FoundIn (files : FileSet) (source : Source) (needed : List Property) (order : SortOrder) :
    Prop where
  file {p : Property} : p.LoadedFor needed → ∃ bytes data, source p.file = some (.ok bytes) ∧
    Payload.read? bytes = some ⟨files.time, data⟩ ∧ p.decode data = .ok (files.values p)
  byName : order.file? = none → files.sorter = .name
  index {name : String} : order.file? = some name → ∃ bytes index, source name = some (.ok bytes) ∧
    SortIndex.read bytes = .ok index ∧ index.creationTime = files.time ∧
    Sorter.ofIndex order index = .ok files.sorter

variable {files : FileSet} {needed : List Property} {ps : List Property}

theorem HeldBy.foundIn {source : Source} {order : SortOrder}
    (h : files.HeldBy source needed order) : files.FoundIn source needed order :=
  ⟨h.file, h.byName, h.index⟩

/-- Putting in stored columns one after the other puts in those derived from them. -/
theorem get?_put (hps : ∀ p ∈ ps, p.isStored = true) (c : Catalog) (q : Property) :
    (files.put c ps).columns.get? q =
      if q.source ∈ ps then some (files.column q) else c.columns.get? q := by
  induction ps generalizing c with
  | nil => rfl
  | cons p ps ih =>
    obtain ⟨hp, hps⟩ := List.forall_mem_cons.1 hps
    refine (ih hps (c.putStored p (files.values p).toArray)).trans ?_
    rw [Catalog.get?_putStored c hp]
    by_cases hq : q.source = p
    · subst hq
      simp [column]
    · simp [hq]

theorem length?_put (hsize : ∀ p ∈ ps, (files.values p).length = files.length) (c : Catalog) :
    (files.put c ps).length? = if ps = [] then c.length? else some files.length := by
  induction ps generalizing c with
  | nil => rfl
  | cons p ps ih =>
    obtain ⟨hp, hps⟩ := List.forall_mem_cons.1 hsize
    have hlength : (c.putStored p (files.values p).toArray).length? = some files.length := by
      rw [← hp, ← List.size_toArray]
      rfl
    refine (ih hps (c.putStored p (files.values p).toArray)).trans ?_
    simp [hlength]

theorem get?_catalog (files : FileSet) (needed : List Property) (q : Property) :
    (files.catalog needed).columns.get? q =
      if q.source.LoadedFor needed then some (files.column q) else none := by
  have hempty : (∅ : Catalog).columns.get? q = none := PropertyMap.get?_empty q
  rw [catalog, get?_put (fun p hp => (Property.mem_loaded.1 hp).isStored), hempty]
  simp only [Property.mem_loaded]

theorem length?_catalog
    (hsize : ∀ p : Property, p.LoadedFor needed → (files.values p).length = files.length) :
    (files.catalog needed).length? = if needed = [] then none else some files.length := by
  rw [catalog, length?_put fun p hp => hsize p (Property.mem_loaded.1 hp)]
  by_cases hneeded : needed = []
  · subst hneeded
    have hempty : (∅ : Catalog).length? = none := rfl
    simp [Property.LoadedFor, hempty]
  · obtain ⟨p, hp⟩ := Property.exists_loadedFor hneeded
    rw [if_neg (List.ne_nil_of_mem (Property.mem_loaded.2 hp)), if_neg hneeded]

/-- It does not matter in which order columns are put in. -/
theorem put_eq_catalog (hps : ∀ p : Property, p ∈ ps ↔ p.LoadedFor needed)
    (hsize : ∀ p : Property, p.LoadedFor needed → (files.values p).length = files.length) :
    files.put ∅ ps = files.catalog needed := by
  refine Catalog.ext (fun q => ?_) ?_
  · rw [catalog, get?_put (fun p hp => ((hps p).1 hp).isStored),
      get?_put (fun p hp => (Property.mem_loaded.1 hp).isStored)]
    simp only [hps, Property.mem_loaded]
  · have hnil : ps = [] ↔ Property.all.filter (·.LoadedFor needed) = [] := by
      simp only [List.eq_nil_iff_forall_not_mem, hps, Property.mem_loaded]
    rw [catalog, length?_put fun p hp => hsize p ((hps p).1 hp),
      length?_put fun p hp => hsize p (Property.mem_loaded.1 hp)]
    simp only [hnil]

end FileSet

namespace Source

def putFile? (source : Source) (c : Catalog) (p : Property) : Option Catalog :=
  match source p.file with
  | some (.ok bytes) => do
    let payload ← Payload.read? bytes
    (c.insert p payload.data).toOption
  | _ => none

/-- The catalog of the files of properties, read one after the other. -/
def catalog? (source : Source) (ps : List Property) : Option Catalog :=
  ps.foldlM source.putFile? ∅

def sorter? (source : Source) (order : SortOrder) : Option Sorter :=
  match order.file? with
  | none => some .name
  | some file =>
    match source file with
    | some (.ok bytes) => do
      let index ← (SortIndex.read bytes).toOption
      (Sorter.ofIndex order index).toOption
    | _ => none

end Source

namespace FileSet

variable {files : FileSet} {source : Source} {needed : List Property} {order : SortOrder}

private theorem HeldBy.putFile?_eq (h : files.HeldBy source needed order) {p : Property}
    (hp : p.LoadedFor needed) (c : Catalog) :
    source.putFile? c p = some (c.putStored p (files.values p).toArray) := by
  obtain ⟨bytes, data, hbytes, hread, hdecode⟩ := h.file hp
  rw [Source.putFile?, hbytes]
  simp only [hread, Option.bind_eq_bind, Option.bind_some, Catalog.insert, if_pos hp.isStored,
    hdecode]
  rfl

/-- The files that are loaded make up the catalog, in whatever order they are read. -/
theorem HeldBy.catalog?_eq (h : files.HeldBy source needed order) {ps : List Property}
    (hps : ∀ p : Property, p ∈ ps ↔ p.LoadedFor needed) :
    source.catalog? ps = some (files.catalog needed) := by
  have hput (qs : List Property) (hqs : ∀ q ∈ qs, q.LoadedFor needed) (c : Catalog) :
      qs.foldlM source.putFile? c = some (files.put c qs) := by
    induction qs generalizing c with
    | nil => rfl
    | cons q qs ih =>
      obtain ⟨hq, hqs⟩ := List.forall_mem_cons.1 hqs
      rw [List.foldlM_cons, h.putFile?_eq hq]
      exact ih hqs _
  rw [Source.catalog?, hput ps (fun p hp => (hps p).1 hp),
    put_eq_catalog hps fun p hp => h.size hp]

theorem HeldBy.sorter?_eq (h : files.HeldBy source needed order) :
    source.sorter? order = some files.sorter := by
  unfold Source.sorter?
  cases hfile : order.file? with
  | none => rw [h.byName hfile]
  | some name =>
    obtain ⟨bytes, index, hbytes, hread, -, hindex⟩ := h.index hfile
    dsimp only
    rw [hbytes]
    simp only [hread, Except.toOption, Option.bind_eq_bind, Option.bind_some, hindex]

end FileSet

/-- A source with the files of all stored properties, which belong together. -/
structure Dataset where
  source : Source
  time : UInt64
  length : Nat
  values : Property → List Values
  file {p : Property} : p.isStored = true → ∃ bytes data, source p.file = some (.ok bytes) ∧
    Payload.read? bytes = some ⟨time, data⟩ ∧ p.decode data = .ok (values p)
  size {p : Property} : p.isStored = true → (values p).length = length

namespace Dataset

/-- The source has the index of an order, of the same creation time. -/
def Sorts (d : Dataset) (order : SortOrder) (x : Sorter) : Prop :=
  match order.file? with
  | none => x = .name
  | some file => ∃ bytes index, d.source file = some (.ok bytes) ∧
    SortIndex.read bytes = .ok index ∧ index.creationTime = d.time ∧
    Sorter.ofIndex order index = .ok x

/-- The catalog with the columns that are loaded where these properties are needed. -/
def catalog (d : Dataset) (needed : List Property) : Catalog :=
  (Property.all.filter (·.LoadedFor needed)).foldl
    (fun c p => c.putStored p (d.values p).toArray) ∅

variable {d : Dataset} {order : SortOrder} {x : Sorter}

def files (d : Dataset) (x : Sorter) : FileSet := ⟨d.time, d.length, d.values, x⟩

theorem catalog_eq (d : Dataset) (x : Sorter) (needed : List Property) :
    d.catalog needed = (d.files x).catalog needed :=
  rfl

theorem heldBy (hsorts : d.Sorts order x) (needed : List Property) :
    (d.files x).HeldBy d.source needed order where
  file hp := d.file hp.isStored
  size hp := d.size hp.isStored
  byName hname := by
    rw [Sorts, hname] at hsorts
    exact hsorts
  index hname := by
    rw [Sorts, hname] at hsorts
    exact hsorts

end Dataset

end CardSearch
