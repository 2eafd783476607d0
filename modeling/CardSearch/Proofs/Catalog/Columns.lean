import CardSearch.Catalog.Basic

/-!
# The columns of a catalog

Putting in the column of a stored property puts in those derived from it. Decoding gives data of
one kind for each property, and so does deriving; thus the data of all columns of a catalog that
was filled from decoded data are of the kind of their property, whatever the data were.
-/

namespace CardSearch

namespace Property

def valueOf (q : Property) (vs : Values) : Values :=
  match q.source.derived.find? (·.1 = q) with
  | some d => Values.derive d.2 vs
  | none => vs

def columnOf (q : Property) (column : Array Values) : Array Values :=
  match q.source.derived.find? (·.1 = q) with
  | some d => column.map (Values.derive d.2)
  | none => column

theorem valueOf_missing (q : Property) : q.valueOf .missing = .missing := by
  unfold valueOf
  split <;> rfl

theorem columnOf_source (q : Property) (column : Array Values) :
    q.source.columnOf column = column := by
  cases q <;> rfl

theorem columnOf_eq_map (q : Property) (column : Array Values) :
    q.columnOf column = column.map q.valueOf := by
  unfold columnOf valueOf
  cases q.source.derived.find? (·.1 = q) with
  | none => exact (Array.map_id' column).symm
  | some d => rfl

theorem getElem?_columnOf (q : Property) (column : Array Values) (record : Nat) :
    (q.columnOf column)[record]?.getD .missing = q.valueOf (column[record]?.getD .missing) := by
  rw [columnOf_eq_map, Array.getElem?_map]
  cases column[record]? with
  | none => exact q.valueOf_missing.symm
  | some vs => rfl

end Property

theorem Catalog.get?_putStored (c : Catalog) {p : Property} (h : p.isStored = true)
    (column : Array Values) (q : Property) : (c.putStored p column).columns.get? q =
      if q.source = p then some (q.columnOf column) else c.columns.get? q := by
  cases p <;> first
    | exact absurd h (by decide)
    | cases q <;> simp [putStored, putColumn, Property.derived, Property.source,
        Property.columnOf, PropertyMap.get?_insert]

theorem Catalog.insert_eq_ok {c c' : Catalog} {p : Property} {data : Json}
    (h : c.insert p data = .ok c') :
    ∃ values, p.isStored = true ∧ p.decode data = .ok values ∧
      c' = c.putStored p values.toArray := by
  unfold insert at h
  split at h
  · next hstored =>
    split at h
    · cases h
    · next values hvalues =>
      cases h
      exact ⟨values, hstored, hvalues, rfl⟩
  · cases h

inductive DataKind
  | bool | number | text | date | cost | rarity
  deriving DecidableEq, Repr

def Datum.kind : Datum → DataKind
  | bool _ => .bool
  | number _ => .number
  | text _ => .text
  | date _ => .date
  | cost _ => .cost
  | rarity _ => .rarity

def Property.kind : Property → DataKind
  | cmc => .number
  | landscape | reprint => .bool
  | colors | cost | identity => .cost
  | rarity => .rarity
  | releasedAt => .date
  | formats | img | name | nameSearch | nameInexact | oracle | oracleSearch | fullOracle
  | fullOracleSearch | set | sfurl | type | typeSearch => .text

namespace Values

def OfKind (kind : DataKind) (vs : Values) : Prop := ∀ d, some d ∈ vs.entries → d.kind = kind

variable {kind : DataKind}

theorem ofKind_missing : missing.OfKind kind := by simp [OfKind, entries]

theorem ofKind_one (d : Datum) : (one d).OfKind d.kind := by simp [OfKind, entries]

theorem ofKind_texts (texts : List String) : (Values.texts texts).OfKind .text := by
  simp [OfKind, entries, Datum.kind]

private theorem ofKind_costs (costs : List (Option ManaCost)) :
    (Values.costs costs).OfKind .cost := by
  intro d hd
  obtain ⟨cost?, -, hcost⟩ := List.mem_map.1 hd
  obtain ⟨cost, -, rfl⟩ := Option.map_eq_some_iff.1 hcost
  rfl

private theorem ofKind_rarities (rarities : List Rarity) :
    (Values.rarities rarities).OfKind .rarity := by
  simp [OfKind, entries, Datum.kind]

private theorem ofKind_dates (dates : List Int) : (Values.dates dates).OfKind .date := by
  simp [OfKind, entries, Datum.kind]

private theorem OfKind.kind_of_get? {vs : Values} (h : vs.OfKind kind) {i : Nat} {d : Datum}
    (hd : vs.get? i = some d) : d.kind = kind := by
  rw [get?_eq, Option.join_eq_some_iff] at hd
  exact h d (List.mem_of_getElem? hd)

theorem OfKind.ofDatum?_get? {vs : Values} (h : vs.OfKind kind) (i : Nat) :
    (Values.ofDatum? (vs.get? i)).OfKind kind := by
  cases hd : vs.get? i with
  | none => exact ofKind_missing
  | some d => exact h.kind_of_get? hd ▸ ofKind_one d

end Values

namespace Property

private theorem ofKind_releaseDates {days : List String} {vs : Values}
    (h : releaseDates days = .ok vs) : vs.OfKind .date := by
  unfold releaseDates at h
  split at h
  · cases h
    exact Values.ofKind_dates _
  · cases h

theorem ofKind_decodeValue {p : Property} {v : Json} {vs : Values} (h : p.decodeValue v = .ok vs) :
    vs.OfKind p.kind := by
  cases p <;> simp only [decodeValue] at h
  case formats | img | set | name | fullOracle | type =>
    split at h <;> cases h
    next hread =>
      obtain ⟨texts, -, rfl⟩ := Option.map_eq_some_iff.1 hread
      exact Values.ofKind_texts texts
  case cmc | landscape | sfurl | identity =>
    split at h <;> cases h
    next hread =>
      obtain ⟨x, -, rfl⟩ := Option.map_eq_some_iff.1 hread
      exact Values.ofKind_one _
  case colors | cost =>
    split at h <;> cases h
    next hread =>
      obtain ⟨faces, -, rfl⟩ := Option.map_eq_some_iff.1 hread
      exact Values.ofKind_costs _
  case rarity =>
    split at h <;> cases h
    next hread =>
      obtain ⟨rarities, -, rfl⟩ := Option.map_eq_some_iff.1 hread
      exact Values.ofKind_rarities rarities
  case releasedAt =>
    split at h
    · exact ofKind_releaseDates h
    · cases h
  all_goals cases h

theorem ofKind_decodeRecord {p : Property} {v : Json} {vs : Values}
    (h : p.decodeRecord v = .ok vs) : vs.OfKind p.kind := by
  unfold decodeRecord at h
  split at h
  · cases h
    exact Values.ofKind_missing
  · exact ofKind_decodeValue h

theorem mapM_id_eq_ok {records : List (Except DecodeFault Values)} {values : List Values} :
    records.mapM id = .ok values ↔ records = values.map .ok := by
  induction records generalizing values with
  | nil => cases values <;> simp [pure, Except.pure]
  | cons record records ih =>
    rw [List.mapM_cons]
    cases record with
    | error e => cases values <;> simp [bind, Except.bind]
    | ok first =>
      cases hrest : records.mapM id with
      | error e =>
        have hne (rest : List Values) : records ≠ rest.map .ok := fun h =>
          nomatch hrest.symm.trans (ih.mpr h)
        cases values <;> simp [bind, Except.bind, hne]
      | ok rest =>
        have hrecords : records = rest.map .ok := ih.mp hrest
        have hinj (rest' : List Values) :
            rest.map .ok = rest'.map (.ok : Values → Except DecodeFault Values) ↔ rest = rest' :=
          List.map_inj_right fun _ _ => Except.ok.inj
        cases values <;> simp [bind, Except.bind, pure, Except.pure, hrecords, hinj]

theorem decode_eq_ok {p : Property} {data : Json} {values : List Values}
    (h : p.decode data = .ok values) :
    ∃ items, data = .list items ∧ items.map p.decodeRecord = values.map .ok := by
  unfold decode at h
  split at h
  · next items =>
    simp only at h
    split at h
    · cases h
    · exact ⟨items, rfl, mapM_id_eq_ok.mp h⟩
  · cases h

theorem exists_decodeRecord_of_mem {p : Property} {data : Json} {values : List Values}
    (h : p.decode data = .ok values) {vs : Values} (hvs : vs ∈ values) :
    ∃ item, p.decodeRecord item = .ok vs := by
  obtain ⟨items, -, hitems⟩ := decode_eq_ok h
  have hmem : .ok vs ∈ items.map p.decodeRecord := hitems ▸ List.mem_map_of_mem hvs
  obtain ⟨item, -, hitem⟩ := List.mem_map.mp hmem
  exact ⟨item, hitem⟩

theorem ofKind_decode {p : Property} {data : Json} {values : List Values}
    (h : p.decode data = .ok values) : ∀ vs ∈ values, vs.OfKind p.kind := by
  intro vs hvs
  obtain ⟨item, hitem⟩ := exists_decodeRecord_of_mem h hvs
  exact ofKind_decodeRecord hitem

theorem ofKind_derived {p : Property} {d : Property × (List String → Values)} (h : d ∈ p.derived)
    (vs : Values) : (Values.derive d.2 vs).OfKind d.1.kind := by
  cases vs with
  | texts faces =>
    have hfaces : (d.2 faces).OfKind d.1.kind := by
      cases p <;> simp only [derived, List.mem_cons, List.not_mem_nil, or_false] at h
      case name =>
        rcases h with rfl | rfl
        · exact Values.ofKind_one _
        · exact Values.ofKind_one _
      case fullOracle =>
        rcases h with rfl | rfl | rfl
        · exact Values.ofKind_texts _
        · exact Values.ofKind_texts _
        · exact Values.ofKind_texts _
      case type =>
        subst h
        exact Values.ofKind_texts _
    exact hfaces
  | _ => exact Values.ofKind_missing

private theorem ofKind_columnOf (q : Property) {column : Array Values}
    (h : ∀ vs ∈ column, vs.OfKind q.source.kind) : ∀ vs ∈ q.columnOf column, vs.OfKind q.kind := by
  unfold columnOf
  split
  · next d hd =>
    obtain rfl : d.1 = q := by simpa using List.find?_some hd
    intro vs hvs
    obtain ⟨faces, -, rfl⟩ := Array.mem_map.1 hvs
    exact ofKind_derived (List.mem_of_find?_eq_some hd) faces
  · next hnone =>
    have hkind : q.source.kind = q.kind := by cases q <;> rfl
    rwa [hkind] at h

end Property

namespace Catalog

/-- A state that a catalog can come to: cleared, and then filled with decoded data. -/
inductive Reachable : Catalog → Prop
  | cleared : Reachable ∅
  | insert {c c' : Catalog} {p : Property} {data : Json} (h : Reachable c)
      (heq : c.insert p data = .ok c') : Reachable c'

theorem Reachable.columns_get? {c : Catalog} (h : c.Reachable) (q : Property) :
    c.columns.get? q = (c.columns.get? q.source).map q.columnOf := by
  induction h with
  | cleared =>
    have hnone (p : Property) : (∅ : Catalog).columns.get? p = none := PropertyMap.get?_empty p
    rw [hnone, hnone]
    rfl
  | insert h heq ih =>
    obtain ⟨values, hp, -, rfl⟩ := insert_eq_ok heq
    have hsource : q.source.source = q.source := by cases q <;> rfl
    rw [get?_putStored _ hp, get?_putStored _ hp, hsource, ih]
    split
    · rw [q.columnOf_source]
      rfl
    · rfl

theorem Reachable.exists_decodeRecord {c : Catalog} (h : c.Reachable) {p : Property}
    (hp : p.source = p) {column : Array Values} (hcolumn : c.columns.get? p = some column)
    {vs : Values} (hvs : vs ∈ column) : ∃ item, p.decodeRecord item = .ok vs := by
  induction h with
  | cleared => exact nomatch (PropertyMap.get?_empty p).symm.trans hcolumn
  | insert h heq ih =>
    obtain ⟨values, hstored, hvalues, rfl⟩ := insert_eq_ok heq
    rw [get?_putStored _ hstored] at hcolumn
    split at hcolumn
    · next hsource =>
      obtain rfl := hp.symm.trans hsource
      have hcolumnOf := p.columnOf_source values.toArray
      rw [hp] at hcolumnOf
      rw [← Option.some.inj hcolumn, hcolumnOf] at hvs
      exact Property.exists_decodeRecord_of_mem hvalues (List.mem_toArray.mp hvs)
    · exact ih hcolumn

/-- What a record holds for a stored property was decoded, if only from no data. -/
theorem Reachable.exists_get_eq {c : Catalog} (h : c.Reachable) {p : Property} (hp : p.source = p)
    (record : Nat) : ∃ item, p.decodeRecord item = .ok (c.get record p) := by
  unfold get
  cases hcolumn : c.columns.get? p with
  | none => exact ⟨.null, rfl⟩
  | some column =>
    cases hvs : column[record]? with
    | none => exact ⟨.null, by simp [hvs, Property.decodeRecord]⟩
    | some vs =>
      obtain ⟨item, hitem⟩ := h.exists_decodeRecord hp hcolumn (Array.mem_of_getElem? hvs)
      exact ⟨item, by simp [hvs, hitem]⟩

def OfKinds (c : Catalog) : Prop :=
  ∀ p column, c.columns.get? p = some column → ∀ vs ∈ column, vs.OfKind p.kind

private theorem OfKinds.insert {c c' : Catalog} {p : Property} {data : Json} (h : c.OfKinds)
    (heq : c.insert p data = .ok c') : c'.OfKinds := by
  obtain ⟨values, hstored, hvalues, rfl⟩ := insert_eq_ok heq
  intro q column hcolumn
  rw [get?_putStored c hstored] at hcolumn
  split at hcolumn
  · next hsource =>
    cases hcolumn
    refine q.ofKind_columnOf fun vs hvs => ?_
    rw [hsource]
    exact Property.ofKind_decode hvalues vs (by simpa using hvs)
  · exact h q column hcolumn

theorem Reachable.ofKinds {c : Catalog} (h : c.Reachable) : c.OfKinds := by
  induction h with
  | cleared =>
    intro p column hcolumn
    have hnone : (∅ : Catalog).columns.get? p = none := PropertyMap.get?_empty p
    rw [hnone] at hcolumn
    cases hcolumn
  | insert _ heq ih => exact ih.insert heq

private theorem OfKinds.get {c : Catalog} (h : c.OfKinds) (record : Nat) (p : Property) :
    (c.get record p).OfKind p.kind := by
  unfold Catalog.get
  split
  · exact Values.ofKind_missing
  · next column hcolumn =>
    cases hvs : column[record]? with
    | none => exact Values.ofKind_missing
    | some vs => exact h p column hcolumn vs (Array.mem_of_getElem? hvs)

theorem OfKinds.getForVersion {c : Catalog} (h : c.OfKinds) (record version : Nat) (p : Property) :
    (c.getForVersion record version p).OfKind p.kind := by
  unfold Catalog.getForVersion
  split
  · next hreprint =>
    subst hreprint
    exact Values.ofKind_one _
  · split
    · exact (h.get record p).ofDatum?_get? version
    · exact h.get record p

end Catalog

end CardSearch
