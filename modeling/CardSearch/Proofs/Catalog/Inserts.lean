import CardSearch.Proofs.Catalog.Columns
import CardSearch.Proofs.Text.Reminders

/-!
# Inserts into a catalog

Data that cannot be decoded, or that belong to no file, leave every column as it is; other data
replace the column of their property and those derived from it, and nothing else. Whatever was put in
before, the column of a derived property is there with that of its source, and it says of each record
what the faces of the source say: names joined or without punctuation, rules texts without their
reminders, all but the latter in lower case.

Rules texts in which a parenthesis closes where none is open are left aside here: more than their
reminders is lost.
-/

namespace CardSearch

theorem Text.stripLoose_eq (cs : List Char) : Text.stripLoose cs =
    cs.filter (· ∉ ['.', ',', ':', ';', '/', '\\', '\'', '"', ' ', '\t']) :=
  congrArg (cs.filter ·) (funext fun _ => (decide_not ..).symm)

namespace Property

def ofFaces : Property → List String → Values
  | nameSearch, faces => .one (.text (Text.lower (" // ".intercalate faces)))
  | nameInexact, faces =>
    .one (.text (Text.lower (String.ofList ((String.join faces).toList.filter
      (· ∉ ['.', ',', ':', ';', '/', '\\', '\'', '"', ' ', '\t'])))))
  | oracle, faces => .texts (faces.map Text.withoutParenthesized)
  | oracleSearch, faces => .texts (faces.map (Text.lower ∘ Text.withoutParenthesized))
  | fullOracleSearch, faces | typeSearch, faces => .texts (faces.map Text.lower)
  | _, _ => .missing

/-- The faces have no parenthesis that closes where none is open, or the property does not leave out
reminders. -/
def SuitsFaces (q : Property) (faces : List String) : Prop :=
  q = oracle ∨ q = oracleSearch → ∀ face ∈ faces, Text.ClosesOpen 0 face.toList

def HasFaces (vs : Values) : Prop := vs = .missing ∨ ∃ faces, vs = .texts faces

structure Follows (q : Property) (column source : Array Values) : Prop where
  size_eq : column.size = source.size
  hasFaces : ∀ vs ∈ source, HasFaces vs
  missing_iff (record : Nat) : column[record]? = some .missing ↔ source[record]? = some .missing
  of_faces {record : Nat} {faces : List String} : source[record]? = some (.texts faces) →
    q.SuitsFaces faces → column[record]? = some (q.ofFaces faces)

end Property

inductive CatalogCall
  | insert (p : Property) (data : Json)
  | clear

namespace Catalog

/-- Decodes the data of a property and puts in its columns, one after the other. -/
def fill (p : Property) (data : Json) : EStateM LoadError Catalog Unit :=
  if p.isStored then
    match p.decode data with
    | .error fault => throw (.decode p.file fault)
    | .ok values => do
      p.derived.forM fun d => modify (·.putColumn d.1 (values.toArray.map (Values.derive d.2)))
      modify (·.putColumn p values.toArray)
  else throw (.notStored p)

/-- The catalog after a call, whether it fails or not. -/
def act (c : Catalog) : CatalogCall → Catalog
  | .insert p data =>
    match (fill p data).run c with
    | .ok _ c' | .error _ c' => c'
  | .clear => ∅

/-- The catalog after calls in turn, when nothing was put in before. -/
def run (calls : List CatalogCall) : Catalog := calls.foldl act ∅

/-- Each derived property has a column if its source has, and that follows the one of the source. -/
structure Coherent (c : Catalog) : Prop where
  isLoaded_eq {q : Property} : q.source ≠ q → c.isLoaded q = c.isLoaded q.source
  follows {q : Property} {column source : Array Values} : q.source ≠ q →
    c.columns.get? q = some column → c.columns.get? q.source = some source → q.Follows column source

/-- The columns of which a property is the source are replaced by those of the items, in turn. -/
structure Replaced (c : Catalog) (p : Property) (items : List Json) (c' : Catalog) : Prop where
  stored : p.isStored = true
  length?_eq : c'.length? = some items.length
  column : ∃ values : List Values, c'.columns.get? p = some values.toArray ∧
    items.map p.decodeRecord = values.map .ok
  derived {q : Property} : q.source = p → c'.isLoaded q = true
  frame {q : Property} : q.source ≠ p → c'.columns.get? q = c.columns.get? q

/-- Data are refused since the property has no file of its own or since they cannot be decoded. -/
def Refuses (p : Property) (data : Json) (e : LoadError) : Prop :=
  p.isStored = false ∧ e = .notStored p ∨
    p.isStored = true ∧ ∃ fault, p.decode data = .error fault ∧ e = .decode p.file fault

section Insert

variable {c c' : Catalog} {p : Property} {data : Json}

private theorem forM_modify {α : Type} (items : List α) (f : α → Catalog → Catalog) (c : Catalog) :
    (items.forM fun a => modify (f a) : EStateM LoadError Catalog PUnit) c =
      .ok ⟨⟩ (items.foldl (fun c a => f a c) c) := by
  induction items generalizing c with
  | nil => rfl
  | cons a items ih => exact ih (f a c)

/-- Column after column, data are put in as at once, and a fault leaves the catalog as it is. -/
theorem fill_eq (c : Catalog) (p : Property) (data : Json) :
    (fill p data).run c = match c.insert p data with
      | .ok c' => .ok () c'
      | .error e => .error e c := by
  unfold fill insert
  by_cases hstored : p.isStored
  · rw [if_pos hstored, if_pos hstored]
    cases hvalues : p.decode data with
    | error fault => rfl
    | ok values =>
      simp only [EStateM.run, bind, EStateM.bind]
      rw [forM_modify]
      rfl
  · rw [if_neg hstored, if_neg hstored]
    rfl

theorem refuses_of_insert {e : LoadError} (h : c.insert p data = .error e) : Refuses p data e := by
  unfold insert at h
  split at h
  · next hstored =>
    split at h
    · next fault hfault =>
      cases h
      exact .inr ⟨hstored, fault, hfault, rfl⟩
    · cases h
  · next hstored =>
    cases h
    exact .inl ⟨Bool.eq_false_iff.mpr hstored, rfl⟩

theorem replaced_of_insert (h : c.insert p data = .ok c') :
    ∃ items, data = .list items ∧ c.Replaced p items c' := by
  obtain ⟨values, hstored, hvalues, rfl⟩ := insert_eq_ok h
  obtain ⟨items, hdata, hitems⟩ := Property.decode_eq_ok hvalues
  have hlength : items.length = values.length := by
    rw [← List.length_map p.decodeRecord, hitems, List.length_map]
  have hget (q : Property) := c.get?_putStored hstored values.toArray q
  have hsource : p.source = p := by simpa [Property.isStored] using (Bool.and_eq_true_iff.mp hstored).1
  refine ⟨items, hdata, hstored, congrArg some hlength.symm, ⟨values, ?_, hitems⟩, ?_, ?_⟩
  · rw [hget, if_pos hsource]
    exact hsource ▸ congrArg some (p.columnOf_source _)
  · intro q hq
    rw [isLoaded, hget, if_pos hq]
    rfl
  · intro q hq
    rw [hget, if_neg hq]

end Insert

private theorem act_insert (c : Catalog) (p : Property) (data : Json) :
    c.act (.insert p data) = (c.insert p data).toOption.getD c := by
  rw [act, fill_eq]
  cases c.insert p data <;> rfl

private theorem Reachable.foldl {c : Catalog} (h : c.Reachable) (calls : List CatalogCall) :
    (calls.foldl act c).Reachable := by
  induction calls generalizing c with
  | nil => exact h
  | cons call calls ih =>
    refine ih ?_
    cases call with
    | clear => exact .cleared
    | insert p data =>
      rw [act_insert]
      cases hinsert : c.insert p data with
      | error e => exact h
      | ok c' => exact h.insert hinsert

theorem reachable_run (calls : List CatalogCall) : (run calls).Reachable :=
  Reachable.cleared.foldl calls

end Catalog

namespace Property

/-- A stored property that others are derived from has lists of faces. -/
theorem hasFaces_decodeRecord {p : Property} {item : Json} {vs : Values} (hp : p.derived ≠ [])
    (h : p.decodeRecord item = .ok vs) : HasFaces vs := by
  unfold decodeRecord at h
  split at h
  · cases h
    exact .inl rfl
  · cases p <;> first | exact absurd rfl hp | skip
    all_goals
      simp only [decodeValue] at h
      split at h <;> cases h
      next hread =>
        obtain ⟨faces, -, rfl⟩ := Option.map_eq_some_iff.1 hread
        exact .inr ⟨faces, rfl⟩

private theorem source_of_derived_ne_nil {p : Property} (h : p.derived ≠ []) : p.source = p := by
  cases p <;> first | rfl | exact absurd rfl h

private theorem derived_source_ne_nil {q : Property} (h : q.source ≠ q) :
    q.source.derived ≠ [] := by
  cases q <;> first | exact absurd rfl h | exact nofun

theorem valueOf_texts {q : Property} (h : q.source ≠ q) {faces : List String}
    (hsuits : q.SuitsFaces faces) : q.valueOf (.texts faces) = q.ofFaces faces := by
  have hmap {f g : String → String} (hfg : ∀ face ∈ faces, f face = g face) :
      Values.texts (faces.map f) = .texts (faces.map g) :=
    congrArg _ (List.map_congr_left hfg)
  cases q <;> first | exact absurd rfl h | skip
  case nameSearch | fullOracleSearch | typeSearch => rfl
  case nameInexact =>
    have hstrip := Text.stripLoose_eq (String.join faces).toList
    exact congrArg (fun cs => Values.one (.text (Text.lower (String.ofList cs)))) hstrip
  case oracle => exact hmap fun face hface => Text.withoutReminders_eq (hsuits (.inl rfl) face hface)
  case oracleSearch =>
    exact hmap fun face hface =>
      congrArg Text.lower (Text.withoutReminders_eq (hsuits (.inr rfl) face hface))

private theorem valueOf_texts_ne_missing {q : Property} (h : q.source ≠ q) (faces : List String) :
    q.valueOf (.texts faces) ≠ .missing := by
  cases q <;> first | exact absurd rfl h | exact nofun

private theorem follows_columnOf {q : Property} (h : q.source ≠ q) {source : Array Values}
    (hfaces : ∀ vs ∈ source, HasFaces vs) : q.Follows (q.columnOf source) source where
  size_eq := by rw [columnOf_eq_map, Array.size_map]
  hasFaces := hfaces
  missing_iff record := by
    rw [columnOf_eq_map, Array.getElem?_map]
    cases hvs : source[record]? with
    | none => rfl
    | some vs =>
      rcases hfaces vs (Array.mem_of_getElem? hvs) with rfl | ⟨faces, rfl⟩
      · simp only [Option.map_some, q.valueOf_missing]
      · have hne : q.valueOf (.texts faces) ≠ .missing := q.valueOf_texts_ne_missing h faces
        simp only [Option.map_some, Option.some.injEq, hne, reduceCtorEq]
  of_faces {record faces} hrecord hsuits := by
    rw [columnOf_eq_map, Array.getElem?_map, hrecord]
    exact congrArg some (valueOf_texts h hsuits)

end Property

namespace Catalog

/-- The columns from which others are derived hold lists of faces. -/
theorem Reachable.hasFaces {c : Catalog} (h : c.Reachable) {p : Property} (hp : p.derived ≠ [])
    {column : Array Values} (hcolumn : c.columns.get? p = some column) :
    ∀ vs ∈ column, Property.HasFaces vs := by
  intro vs hvs
  obtain ⟨item, hitem⟩ :=
    h.exists_decodeRecord (Property.source_of_derived_ne_nil hp) hcolumn hvs
  exact Property.hasFaces_decodeRecord hp hitem

private theorem Reachable.coherent {c : Catalog} (h : c.Reachable) : c.Coherent where
  isLoaded_eq {q} _ := by rw [isLoaded, isLoaded, h.columns_get? q, Option.isSome_map]
  follows {q column source} hq hcolumn hsource := by
    rw [h.columns_get? q, hsource] at hcolumn
    cases hcolumn
    exact Property.follows_columnOf hq (h.hasFaces (Property.derived_source_ne_nil hq) hsource)

/-- After any calls, data that are put in replace the columns of their property by the values of their
items, one for each record, and leave the others; data that are refused leave the catalog as it is.
The derived columns say what their sources say. -/
theorem coherent_run (calls : List CatalogCall) (p : Property) (data : Json) :
    (run calls).Coherent ∧
      match (fill p data).run (run calls) with
      | .ok _ c' => c'.Coherent ∧ ∃ items, data = .list items ∧ (run calls).Replaced p items c'
      | .error e c' => c' = run calls ∧ Refuses p data e := by
  have hreachable : (run calls).Reachable := reachable_run calls
  refine ⟨hreachable.coherent, ?_⟩
  rw [fill_eq]
  cases hinsert : (run calls).insert p data with
  | ok c' => exact ⟨(hreachable.insert hinsert).coherent, replaced_of_insert hinsert⟩
  | error e => exact ⟨rfl, refuses_of_insert hinsert⟩

/-- Where a parenthesis closes that was not open, rules text is lost that is no reminder. -/
theorem coherent_run_unopened :
    let faces := ["Draw a card) now"]
    let data := Json.list [.list [.text "Flying (It is in the air.)"], .list (faces.map .text)]
    let c := run [.insert .fullOracle data]
    (∀ column source, c.columns.get? .oracle = some column →
      c.columns.get? .fullOracle = some source → Property.oracle.Follows column source) ∧
    c.get 0 .oracle = .texts ["Flying"] ∧
    c.get 1 .oracle = .texts [""] ∧ Property.oracle.ofFaces faces = .texts ["Draw a card now"] :=
  ⟨fun _ _ hcolumn hsource => (coherent_run _ .fullOracle .null).1.follows (by decide) hcolumn
    hsource, by decide +kernel, by decide +kernel, by decide +kernel⟩

end Catalog

end CardSearch
