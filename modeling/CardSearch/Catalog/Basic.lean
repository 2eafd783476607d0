import CardSearch.Json.Basic
import CardSearch.Json.Form
import CardSearch.Mana.Reading
import CardSearch.Property
import CardSearch.ReleaseDate
import CardSearch.SortIndex.Basic
import CardSearch.Text.Characters
import CardSearch.Text.Lowercase
import CardSearch.Text.Search
import CardSearch.Values

/-!
# The catalog

The loaded properties of all records, one column for each. A stored property brings the columns
derived from it along, so they are there exactly when it is.

The data of a property is a list with one item for each record, `null` where the record has no
value. What stands for a value depends on the property; a card with several faces or printings
has a list of them. The file of a property holds the creation time of its snapshot and the data, as an
object with these two members or as a list of the two. Members of other names are passed over,
whatever their values; their names must still be texts.
-/

namespace CardSearch

/-- Why a file cannot be decoded: it has not the form that is expected, or it lists versions that
were not all released on days of the calendar. -/
inductive DecodeFault
  | form
  | releaseDates (dates : List String)
  deriving DecidableEq, Repr

def DecodeFault.message : DecodeFault → String
  | form => "unexpected form of data"
  | releaseDates dates => "invalid release dates " ++ Text.quotedList dates

/-- Why a property or an index is not loaded. -/
inductive LoadError
  /-- The file cannot be read. -/
  | io (name message : String)
  /-- The file cannot be decoded. -/
  | decode (name : String) (fault : DecodeFault)
  /-- The file is no usable index. -/
  | index (name : String) (error : IndexError)
  /-- The property has no file of its own. -/
  | notStored (property : Property)
  /-- The file belongs to another snapshot than the data loaded before. -/
  | stale (expected actual : UInt64)
  /-- The data was dropped while the file was being loaded. -/
  | aborted (name : String)
  deriving DecidableEq, Repr

namespace LoadError

def message : LoadError → String
  | io name message => "Failed to read " ++ name ++ ": " ++ message
  | decode name fault => "Failed to decode " ++ name ++ ": " ++ fault.message
  | index name error => "Invalid sort index " ++ name ++ ": " ++ error.message
  | notStored p => "Property " ++ p.label ++ " has no payload of its own"
  | stale expected actual =>
    "Dataset is out of date: snapshot " ++ toString expected.toNat ++ ", received " ++
      toString actual.toNat
  | aborted name => "Load of " ++ name ++ " was aborted"

/-- Whether the error may go away when the load is tried again. -/
def isRetryable : LoadError → Bool
  | io _ _ | stale _ _ | aborted _ => true
  | _ => false

end LoadError

namespace Json

/-- The rarity of a value: its name, or an object with the name as its only member and no value. -/
def rarity? : Json → Option Rarity
  | text s => Rarity.ofLabel? s
  | object [(name, null)] => Rarity.ofLabel? name
  | _ => none

end Json

namespace ManaCost

/-- The costs of the faces of a card. An empty cost on a back face is none. -/
def ofFaces (backMayLack : Bool) : List (Option String) → List (Option ManaCost)
  | [] => []
  | front :: backs =>
    front.map read ::
      backs.map (fun face => match face with
        | some s => if backMayLack && s.isEmpty then none else some (read s)
        | none => none)

end ManaCost

namespace Property

def file (p : Property) : String := "card_" ++ p.label ++ ".json"

def releaseDates (days : List String) : Except DecodeFault Values :=
  match days.mapM (fun s => Calendar.read? s.toList) with
  | some dates => .ok (.dates dates)
  | none => .error (.releaseDates days)

/-- A decoder for the value of a record; none for a property that has no data of its own. -/
def decodeValue (p : Property) (v : Json) : Except DecodeFault Values :=
  let found (value? : Option Values) : Except DecodeFault Values :=
    match value? with
    | some vs => .ok vs
    | none => .error .form
  match p with
  | cmc => found (v.double?.map (.one ∘ .number))
  | landscape => found (v.bool?.map (.one ∘ .bool))
  | sfurl => found (v.text?.map (.one ∘ .text))
  | identity => found (v.text?.map (.one ∘ .cost ∘ ManaCost.read))
  | colors => found ((v.listOf? (Json.optional? Json.text?)).map (.costs ∘ ManaCost.ofFaces false))
  | cost => found ((v.listOf? (Json.optional? Json.text?)).map (.costs ∘ ManaCost.ofFaces true))
  | rarity => found ((v.listOf? Json.rarity?).map .rarities)
  | releasedAt =>
    match v.listOf? Json.text? with
    | some days => releaseDates days
    | none => .error .form
  | formats | img | set | name | fullOracle | type =>
    found ((v.listOf? Json.text?).map .texts)
  | _ => .error .form

def decodeRecord (p : Property) : Json → Except DecodeFault Values
  | .null => .ok .missing
  | v => p.decodeValue v

def isFormFault : Except DecodeFault Values → Bool
  | .error .form => true
  | _ => false

/-- The values of all records. A fault in the form of any of them comes before faults of another
kind. -/
def decode (p : Property) : Json → Except DecodeFault (List Values)
  | .list items =>
    let records := items.map p.decodeRecord
    if records.any isFormFault then .error .form else records.mapM id
  | _ => .error .form

def searchedName (faces : List String) : Values :=
  .one (.text (Text.lower (" // ".intercalate faces)))

def looseName (faces : List String) : Values :=
  .one (.text (Text.lower (String.ofList (Text.stripLoose (String.join faces).toList))))

def derived : Property → List (Property × (List String → Values))
  | name => [(nameSearch, searchedName), (nameInexact, looseName)]
  | fullOracle =>
    [(fullOracleSearch, fun faces => .texts (faces.map Text.lower)),
     (oracleSearch, fun faces => .texts (faces.map (Text.lower ∘ Text.withoutReminders))),
     (oracle, fun faces => .texts (faces.map Text.withoutReminders))]
  | type => [(typeSearch, fun faces => .texts (faces.map Text.lower))]
  | _ => []

end Property

namespace Values

def derive (f : List String → Values) : Values → Values
  | texts faces => f faces
  | _ => missing

end Values

/-- Columns of values by record, and the number of records. -/
structure Catalog where
  columns : PropertyMap (Array Values) := ∅
  length? : Option Nat := none

namespace Catalog

instance : EmptyCollection Catalog := ⟨{}⟩

instance : Inhabited Catalog := ⟨∅⟩

def isLoaded (c : Catalog) (p : Property) : Bool := (c.columns.get? p).isSome

def putColumn (c : Catalog) (p : Property) (column : Array Values) : Catalog :=
  ⟨c.columns.insert p column, some column.size⟩

def putStored (c : Catalog) (p : Property) (column : Array Values) : Catalog :=
  (p.derived.foldl (fun c d => c.putColumn d.1 (column.map (Values.derive d.2))) c).putColumn p
    column

def insert (c : Catalog) (p : Property) (data : Json) : Except LoadError Catalog :=
  if p.isStored then
    match p.decode data with
    | .error fault => .error (.decode p.file fault)
    | .ok values => .ok (c.putStored p values.toArray)
  else .error (.notStored p)

def get (c : Catalog) (record : Nat) (p : Property) : Values :=
  match c.columns.get? p with
  | none => .missing
  | some column => column[record]?.getD .missing

def versionCount? (c : Catalog) (record : Nat) : Option Nat :=
  ((Property.perVersion.map (c.get record)).find? Values.isList).map Values.length

/-- The value of a property for one version of a record. Every version but the first is a
reprint; a property of the card is the same for all. -/
def getForVersion (c : Catalog) (record version : Nat) (p : Property) : Values :=
  if p = .reprint then .one (.bool (version != 0))
  else if p.isPerVersion then .ofDatum? ((c.get record p).get? version)
  else c.get record p

def name? (c : Catalog) (record : Nat) : Option String :=
  match c.get record .name with
  | .texts (face :: faces) => some (" // ".intercalate (face :: faces))
  | _ => none

def pageAddress? (c : Catalog) (record : Nat) : Option String :=
  match c.get record .sfurl with
  | .one (.text path) => some ("https://scryfall.com/" ++ path)
  | _ => none

def imageAddress? (c : Catalog) (record : Nat) : Option String :=
  match c.get record .img with
  | .texts (front :: _) => some ("https://cards.scryfall.io/normal/" ++ front)
  | _ => none

end Catalog

/-- What the file of a property holds. -/
structure Payload where
  creationTime : UInt64
  data : Json

namespace Payload

def creationTime? : Form → Option UInt64
  | .number n =>
    match n.value? with
    | some (.natural time) => some time
    | _ => none
  | _ => none

/-- The data of a payload, whose own bracket counts against the limit. -/
def data? (form : Form) : Option Json :=
  if form.depth < Form.depthLimit then form.value? else none

def onlyMember? (name : String) (members : List (String × Form)) : Option Form :=
  match members.filter (·.1 == name) with
  | [m] => some m.2
  | _ => none

def named? (members : List (List TextPiece × Form)) : Option (List (String × Form)) :=
  members.mapM (fun m => (Form.stringOf? m.1).map (·, m.2))

def ofParts? (time data : Form) : Option Payload := do
  return ⟨← creationTime? time, ← data? data⟩

def ofForm? : Form → Option Payload
  | .list [time, data] => ofParts? time data
  | .object members => do
    let members ← named? members
    ofParts? (← onlyMember? "creation_time" members) (← onlyMember? "data" members)
  | _ => none

def read? (bytes : List UInt8) : Option Payload := do
  ofForm? (← Form.ofBytes? bytes)

end Payload

end CardSearch
