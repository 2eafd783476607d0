import CardSearch.Bytes

/-!
# Sort indices

An index lists records in groups that stand equal in its order. Its file starts with a header of
36 bytes: the magic letters, the version of the format, the kind, the creation time of the
snapshot, the name of the order padded with zeros, and the number of groups. After it come the
number of entries up to the end of each group and then the entries. Numbers have their lowest
byte first.
-/

namespace CardSearch

/-- Whether an index orders records or single printed versions of them. -/
inductive SortKind
  | byRecord
  | byVersion
  deriving DecidableEq, Repr, Inhabited

namespace SortKind

def code : SortKind → UInt8
  | byRecord => 1 | byVersion => 2

def ofCode? (code : UInt8) : Option SortKind :=
  if code = 1 then some byRecord else if code = 2 then some byVersion else none

def entrySize : SortKind → Nat
  | byRecord => 2 | byVersion => 4

end SortKind

/-- A record in an index, and the version of it that is meant; an index of records names the
first version. -/
structure SortEntry where
  record : UInt16
  version : UInt16
  deriving DecidableEq, Repr, Inhabited

/-- An index: entries in groups, the lowest first. -/
structure SortIndex where
  kind : SortKind
  creationTime : UInt64
  order : String
  groups : List (List SortEntry)
  deriving DecidableEq, Repr, Inhabited

/-- Why a file is no usable index. -/
inductive IndexError
  | truncated (offset needed length : Nat)
  | badMagic (found : List UInt8)
  | unsupportedVersion (version : Nat)
  | badKind (code : UInt8)
  | keyNotText
  | groupEndsDecrease (offset : Nat)
  | orderMismatch (requested found : String)
  deriving DecidableEq, Repr

namespace SortIndex

def magic : List UInt8 := [77, 84, 71, 73]

def formatVersion : Nat := 3

def keyOffset : Nat := 16

def keyLength : Nat := 16

/-- Where the group ends start, which is the length of the header. -/
def tableOffset : Nat := 36

def entries (index : SortIndex) : List SortEntry := index.groups.flatten

end SortIndex

namespace IndexError

def code : IndexError → String
  | truncated _ _ _ => "CQ_INDEX_TRUNCATED"
  | badMagic _ => "CQ_INDEX_BAD_MAGIC"
  | unsupportedVersion _ => "CQ_INDEX_UNSUPPORTED_VERSION"
  | badKind _ => "CQ_INDEX_BAD_KIND"
  | keyNotText | groupEndsDecrease _ => "CQ_INDEX_CORRUPT"
  | orderMismatch _ _ => "CQ_INDEX_ORDER_MISMATCH"

def offset : IndexError → Nat
  | truncated offset _ _ => offset
  | badMagic _ => 0
  | unsupportedVersion _ => 4
  | badKind _ => 6
  | keyNotText | orderMismatch _ _ => SortIndex.keyOffset
  | groupEndsDecrease offset => offset

def reason : IndexError → String
  | truncated offset needed length =>
    "Need " ++ toString needed ++ " bytes at offset " ++ toString offset ++ ", buffer has " ++
      toString length ++ "."
  | badMagic found =>
    "Expected magic \"MTGI\", found [" ++
      ", ".intercalate (found.map (fun b => toString b.toNat)) ++ "]."
  | unsupportedVersion version =>
    "Format version " ++ toString version ++ " not supported, expected " ++
      toString SortIndex.formatVersion ++ "."
  | badKind code => "Unknown index kind " ++ toString code.toNat ++ "."
  | keyNotText =>
    "Corrupt index at offset " ++ toString SortIndex.keyOffset ++ ": sort key is not UTF-8"
  | groupEndsDecrease offset =>
    "Corrupt index at offset " ++ toString offset ++ ": group ends decrease"
  | orderMismatch requested found =>
    "Requested sort order " ++ requested ++ ", index is for " ++ found ++ "."

def message (e : IndexError) : String := "[ERROR] " ++ e.code ++ ": " ++ e.reason

end IndexError

end CardSearch
