import CardSearch.Binary64
import CardSearch.Bytes
import CardSearch.Condition

/-!
# The canonical encoding of a condition

A condition is written as bytes in prefix order: a header, then for each node a tag and its
contents, numbers with the lowest byte first. Texts and lists are preceded by their length, which
stops at the largest number of sixteen bits. Mana symbols become masks, one bit for each letter of
their key. The digest of the encoding identifies a query.
-/

namespace CardSearch.Encoding

/-- The bytes at the start of every encoding: a mark, the version and two zeros. -/
def header : List UInt8 := [0x4d, 0x54, 0x47, 0x51, 1, 0, 0, 0]

/-- A length of sixteen bits, or the largest if it is more. -/
def length (n : Nat) : List UInt8 := Bytes.littleEndian 2 (min n 65535)

def text (s : String) : List UInt8 := length s.utf8ByteSize ++ Bytes.ofText s

/-- The bit of a letter in the mask of a symbol. Digits stand for generic mana. -/
def letterBit (c : Char) : UInt16 :=
  match c with
  | 'W' => 0x1
  | 'U' => 0x2
  | 'B' => 0x4
  | 'R' => 0x8
  | 'G' => 0x10
  | 'C' => 0x20
  | 'N' => 0x40
  | 'X' => 0x80
  | 'S' => 0x100
  | 'P' => 0x200
  | c => if c.isDigit then 0x40 else 0

def symbolMask (key : String) : UInt16 := key.toList.foldl (fun mask c => mask ||| letterBit c) 0

def symbolCount (e : String × UInt32) : List UInt8 :=
  Bytes.littleEndian 2 (symbolMask e.1).toNat ++ Bytes.littleEndian 4 e.2.toNat

def cost (c : ManaCost) : List UInt8 :=
  UInt8.ofNat (min c.symbolCount 255) :: c.counts.flatMap symbolCount

/-- A literal. A rarity is written as its name, a date as a double-precision number. -/
def literal : Literal → List UInt8
  | .bool b => [1, b.toUInt8]
  | .int n => 2 :: Bytes.littleEndian 4 n.toUInt32.toNat
  | .text s => 3 :: text s
  | .rarity r => 3 :: text r.label
  | .date d => 4 :: Bytes.littleEndian 8 (Binary64.ofInt d).bits.toNat
  | .cost c => 5 :: cost c

def compareTag : CompareOp → UInt8
  | .eq => 6 | .ne => 7 | .lt => 8 | .gt => 9 | .le => 10 | .ge => 11

def leaf : Leaf → List UInt8
  | .compare op p value => compareTag op :: p.code :: literal value
  | .contains p part => 12 :: p.code :: text part
  | .parity .even p => [13, p.code]
  | .parity .odd p => [14, p.code]
  | .range p first firstIncluded last lastIncluded =>
    15 :: p.code :: (firstIncluded.toUInt8 + 2 * lastIncluded.toUInt8) ::
      (literal first ++ literal last)

mutual

def condition : Condition → List UInt8
  | .const true => [1]
  | .const false => [2]
  | .not c => 3 :: condition c
  | .any cs => 4 :: (length cs.length ++ conditions cs)
  | .all cs => 5 :: (length cs.length ++ conditions cs)
  | .leaf l => leaf l
  | .subset id => 16 :: text id

def conditions : List Condition → List UInt8
  | [] => []
  | c :: cs => condition c ++ conditions cs

end

end CardSearch.Encoding

namespace CardSearch

def Condition.encode (c : Condition) : List UInt8 := Encoding.header ++ Encoding.condition c

/-- The digest that identifies a condition. -/
structure Digest where
  bytes : List UInt8
  deriving DecidableEq, Repr, Inhabited

def Digest.text (d : Digest) : String := Bytes.hex d.bytes

def Condition.digest (c : Condition) : Digest := ⟨Sha256.digest c.encode⟩

def Query.digest (q : Query) : Digest := q.condition.digest

end CardSearch
