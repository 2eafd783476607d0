import CardSearch.SortIndex.Basic

/-!
# The file of a sort index

Writing gathers rows by their key, in ascending order of the keys, and keeps the order of the rows
within a group. Reading checks that the groups and all their entries lie inside the file; bytes
after the last entry are left alone.
-/

namespace CardSearch

structure SortRow where
  key : Int64
  entry : SortEntry
  deriving DecidableEq, Repr

namespace SortIndex

open Bytes

def entryBytes (kind : SortKind) (e : SortEntry) : List UInt8 :=
  match kind with
  | .byRecord => littleEndian 2 e.record.toNat
  | .byVersion => littleEndian 2 e.record.toNat ++ littleEndian 2 e.version.toNat

def groupRows (rows : List SortRow) : List (List SortRow) :=
  (rows.mergeSort (fun a b => a.key ≤ b.key)).splitBy (fun a b => a.key == b.key)

def groupEnds (done : Nat) : List Nat → List Nat
  | [] => []
  | size :: sizes => (done + size) :: groupEnds (done + size) sizes

/-- The name of an order, cut or padded to its room. -/
def keyBytes (order : String) : List UInt8 :=
  let bytes := (ofText order).take keyLength
  bytes ++ List.replicate (keyLength - bytes.length) 0

def headerBytes (order : String) (kind : SortKind) (creationTime : UInt64) (groups : Nat) :
    List UInt8 :=
  magic ++ littleEndian 2 formatVersion ++ [kind.code, 0] ++ littleEndian 8 creationTime.toNat ++
    keyBytes order ++ littleEndian 4 groups

def write (order : String) (kind : SortKind) (creationTime : UInt64) (rows : List SortRow) :
    List UInt8 :=
  let groups := groupRows rows
  headerBytes order kind creationTime groups.length ++
    (groupEnds 0 (groups.map List.length)).flatMap (littleEndian 4) ++
    groups.flatten.flatMap (fun row => entryBytes kind row.entry)

def field (bytes : List UInt8) (offset size : Nat) : Nat :=
  ofLittleEndian ((bytes.drop offset).take size)

def pieces (size : Nat) : Nat → List UInt8 → List (List UInt8)
  | 0, _ => []
  | n + 1, bytes => bytes.take size :: pieces size n (bytes.drop size)

/-- Checks that group ends do not decrease, the first of them standing at the given place. -/
def checkEnds (offset previous : Nat) : List Nat → Except IndexError Unit
  | [] => .ok ()
  | ending :: rest =>
    if ending < previous then .error (.groupEndsDecrease offset)
    else checkEnds (offset + 4) ending rest

/-- A list cut at the given places, of which `done` elements are cut off already. -/
def cutAt {α : Type} (done : Nat) : List Nat → List α → List (List α)
  | [], _ => []
  | ending :: rest, xs => xs.take (ending - done) :: cutAt ending rest (xs.drop (ending - done))

def entryOf (kind : SortKind) (bytes : List UInt8) : SortEntry where
  record := UInt16.ofNat (field bytes 0 2)
  version := match kind with
    | .byRecord => 0
    | .byVersion => UInt16.ofNat (field bytes 2 2)

def read (bytes : List UInt8) : Except IndexError SortIndex :=
  let length := bytes.length
  if length < tableOffset then .error (.truncated 0 tableOffset length)
  else if bytes.take 4 ≠ magic then .error (.badMagic (bytes.take 4))
  else if field bytes 4 2 ≠ formatVersion then .error (.unsupportedVersion (field bytes 4 2))
  else
    match SortKind.ofCode? (UInt8.ofNat (field bytes 6 1)) with
    | none => .error (.badKind (UInt8.ofNat (field bytes 6 1)))
    | some kind =>
      match text? (((bytes.drop keyOffset).take keyLength).takeWhile (· ≠ 0)) with
      | none => .error .keyNotText
      | some order =>
        let count := field bytes 32 4
        let entriesOffset := tableOffset + 4 * count
        if length < entriesOffset then .error (.truncated tableOffset (4 * count) length)
        else
          let ends := (pieces 4 count (bytes.drop tableOffset)).map ofLittleEndian
          match checkEnds tableOffset 0 ends with
          | .error e => .error e
          | .ok () =>
            let entryCount := ends.getLast?.getD 0
            let needed := entryCount * kind.entrySize
            if length < entriesOffset + needed then
              .error (.truncated entriesOffset needed length)
            else
              let entries := (pieces kind.entrySize entryCount (bytes.drop entriesOffset)).map
                (entryOf kind)
              .ok {
                kind, order
                creationTime := UInt64.ofNat (field bytes 8 8)
                groups := cutAt 0 ends entries }

end SortIndex

end CardSearch
