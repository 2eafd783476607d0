/-!
# Bytes

Numbers as bytes, the lowest first, texts as UTF-8, and bytes as hexadecimal digits.

For the digest SHA-256 a message is padded to blocks of sixteen words. Each block is stretched to 64
words, which are worked into a state of eight words in 64 rounds; the state that results is added to
the one before.
-/

namespace CardSearch

namespace Bytes

def littleEndian : Nat → Nat → List UInt8
  | 0, _ => []
  | n + 1, value => UInt8.ofNat value :: littleEndian n (value / 256)

def ofLittleEndian : List UInt8 → Nat
  | [] => 0
  | b :: bs => b.toNat + 256 * ofLittleEndian bs

def ofText (s : String) : List UInt8 := s.toUTF8.data.toList

def text? (bytes : List UInt8) : Option String := String.fromUTF8? ⟨bytes.toArray⟩

def hexByte (b : UInt8) : List Char :=
  [Nat.digitChar (b.toNat / 16), Nat.digitChar (b.toNat % 16)]

def hex (bytes : List UInt8) : String := String.ofList (bytes.flatMap hexByte)

@[simp] theorem length_littleEndian (n value : Nat) : (littleEndian n value).length = n := by
  induction n generalizing value with
  | zero => rfl
  | succ n ih => simp [littleEndian, ih]

theorem ofLittleEndian_littleEndian (n value : Nat) :
    ofLittleEndian (littleEndian n value) = value % Nat.pow 256 n := by
  induction n generalizing value with
  | zero => simp [littleEndian, ofLittleEndian, Nat.mod_one]
  | succ n ih =>
    have hbyte : (UInt8.ofNat value).toNat = value % 256 := UInt8.toNat_ofNat'
    rw [littleEndian, ofLittleEndian, ih, hbyte, Nat.pow_eq, Nat.pow_eq, Nat.pow_succ', Nat.mod_mul]

theorem length_ofText (s : String) : (ofText s).length = s.utf8ByteSize := Array.length_toList

theorem ofText_inj {s t : String} : ofText s = ofText t ↔ s = t :=
  ⟨fun h => String.toByteArray_inj.1 (ByteArray.ext (Array.toList_inj.1 h)), congrArg _⟩

theorem text?_ofText (s : String) : text? (ofText s) = some s := by
  have hbytes : (⟨(ofText s).toArray⟩ : ByteArray) = s.toByteArray := by
    simp [ofText, String.toUTF8]
  rw [text?, hbytes, String.fromUTF8?, dif_pos s.isValidUTF8]
  rfl

end Bytes

namespace Sha256

/-- The eight words of the state. -/
structure State where
  a : UInt32
  b : UInt32
  c : UInt32
  d : UInt32
  e : UInt32
  f : UInt32
  g : UInt32
  h : UInt32
  deriving DecidableEq

def initial : State :=
  ⟨0x6a09e667, 0xbb67ae85, 0x3c6ef372, 0xa54ff53a, 0x510e527f, 0x9b05688c, 0x1f83d9ab, 0x5be0cd19⟩

def roundConstants : List UInt32 := [
  0x428a2f98, 0x71374491, 0xb5c0fbcf, 0xe9b5dba5, 0x3956c25b, 0x59f111f1, 0x923f82a4, 0xab1c5ed5,
  0xd807aa98, 0x12835b01, 0x243185be, 0x550c7dc3, 0x72be5d74, 0x80deb1fe, 0x9bdc06a7, 0xc19bf174,
  0xe49b69c1, 0xefbe4786, 0x0fc19dc6, 0x240ca1cc, 0x2de92c6f, 0x4a7484aa, 0x5cb0a9dc, 0x76f988da,
  0x983e5152, 0xa831c66d, 0xb00327c8, 0xbf597fc7, 0xc6e00bf3, 0xd5a79147, 0x06ca6351, 0x14292967,
  0x27b70a85, 0x2e1b2138, 0x4d2c6dfc, 0x53380d13, 0x650a7354, 0x766a0abb, 0x81c2c92e, 0x92722c85,
  0xa2bfe8a1, 0xa81a664b, 0xc24b8b70, 0xc76c51a3, 0xd192e819, 0xd6990624, 0xf40e3585, 0x106aa070,
  0x19a4c116, 0x1e376c08, 0x2748774c, 0x34b0bcb5, 0x391c0cb3, 0x4ed8aa4a, 0x5b9cca4f, 0x682e6ff3,
  0x748f82ee, 0x78a5636f, 0x84c87814, 0x8cc70208, 0x90befffa, 0xa4506ceb, 0xbef9a3f7, 0xc67178f2]

/-- A word turned right by `n` bits. -/
def rotate (w : UInt32) (n : UInt32) : UInt32 := (w >>> n) ||| (w <<< (32 - n))

/-- The word sixteen places on from the first of sixteen words in the schedule. -/
def nextWord (w : List UInt32) : UInt32 :=
  let w1 := w.getD 1 0
  let w14 := w.getD 14 0
  w.getD 0 0 + (rotate w1 7 ^^^ rotate w1 18 ^^^ (w1 >>> 3)) + w.getD 9 0 +
    (rotate w14 17 ^^^ rotate w14 19 ^^^ (w14 >>> 10))

def State.round (s : State) (constant word : UInt32) : State :=
  let t₁ := s.h + (rotate s.e 6 ^^^ rotate s.e 11 ^^^ rotate s.e 25) +
    ((s.e &&& s.f) ^^^ (~~~s.e &&& s.g)) + constant + word
  let t₂ := (rotate s.a 2 ^^^ rotate s.a 13 ^^^ rotate s.a 22) +
    ((s.a &&& s.b) ^^^ (s.a &&& s.c) ^^^ (s.b &&& s.c))
  ⟨t₁ + t₂, s.a, s.b, s.c, s.d + t₁, s.e, s.f, s.g⟩

def State.rounds (s : State) (window : List UInt32) : List UInt32 → State
  | [] => s
  | constant :: constants =>
    (s.round constant (window.headD 0)).rounds (window.tail ++ [nextWord window]) constants

def State.absorb (s : State) (block : List UInt32) : State :=
  let t := s.rounds block roundConstants
  ⟨s.a + t.a, s.b + t.b, s.c + t.c, s.d + t.d, s.e + t.e, s.f + t.f, s.g + t.g, s.h + t.h⟩

/-- A message followed by a one bit, zeros up to eight bytes short of a whole block, and its
length in bits. -/
def pad (message : List UInt8) : List UInt8 :=
  let zeros := (119 - message.length % 64) % 64
  message ++ 0x80 :: List.replicate zeros 0 ++
    (Bytes.littleEndian 8 (8 * message.length)).reverse

def words : Nat → List UInt8 → List UInt32
  | 0, _ => []
  | n + 1, bytes =>
    UInt32.ofNat (Bytes.ofLittleEndian (bytes.take 4).reverse) :: words n (bytes.drop 4)

def State.absorbAll (s : State) : Nat → List UInt8 → State
  | 0, _ => s
  | n + 1, bytes => (s.absorb (words 16 bytes)).absorbAll n (bytes.drop 64)

def State.bytes (s : State) : List UInt8 :=
  [s.a, s.b, s.c, s.d, s.e, s.f, s.g, s.h].flatMap
    (fun w => (Bytes.littleEndian 4 w.toNat).reverse)

def digest (message : List UInt8) : List UInt8 :=
  let padded := pad message
  (initial.absorbAll (padded.length / 64) padded).bytes

end Sha256

namespace Uuid

/-- Marks bytes as random ones: four bits of the seventh and two bits of the ninth are fixed. -/
def mark (bytes : List UInt8) : List UInt8 :=
  (bytes.modify 6 (fun b => b &&& 0x0f ||| 0x40)).modify 8 (fun b => b &&& 0x3f ||| 0x80)

def group (digits : List Char) : List Nat → List (List Char)
  | [] => []
  | n :: ns => digits.take n :: group (digits.drop n) ns

def ofBytes (bytes : List UInt8) : String :=
  "-".intercalate ((group (Bytes.hex (mark bytes)).toList [8, 4, 4, 4, 12]).map String.ofList)

end Uuid

end CardSearch
