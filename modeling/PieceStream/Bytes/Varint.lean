import PieceStream.Bytes.Basic

/-!
# Varints

A varint writes a word in groups of seven bits, the least significant group first; every
byte but the last has its high bit set.  A block announces its size by one.
-/

namespace PieceStream.Varint

/-- The longest varint of a word. -/
def maxLength : Nat := 10

/-- The groups of a number, least significant first. -/
def encodeNat (n : Nat) : Bytes :=
  if n < 128 then [UInt8.ofNat n] else UInt8.ofNat (n % 128 + 128) :: encodeNat (n / 128)

/-- The varint of a word. -/
def encode (value : UInt64) : Bytes := encodeNat value.toNat

/-- The number of significant bits of a number, 0 for 0. -/
def bitLength (n : Nat) : Nat := if n = 0 then 0 else n.log2 + 1

/-- The number of bytes of the varint of a word: a byte for every seven bits, at least one. -/
def size (value : UInt64) : Nat := max 1 ((bitLength value.toNat + 6) / 7)

/-- Reads a varint whose first `index` groups have the value `value`. -/
def decodeFrom (index value : Nat) : Bytes → Option (Nat × Nat)
  | [] => none
  | b :: rest =>
    let group := b.toNat % 128
    let sum := value + group * 128 ^ index
    if maxLength ≤ index ∨ (index + 1 = maxLength ∧ 1 < group) then none
    else if b.toNat < 128 then some (sum, index + 1)
    else decodeFrom (index + 1) sum rest

/-- The word that `data` begins with and the number of bytes that write it; nothing if `data`
ends within the varint or the varint exceeds a word. -/
def decode (data : Bytes) : Option (UInt64 × Nat) :=
  (decodeFrom 0 0 data).map fun (value, used) => (UInt64.ofNat value, used)

end PieceStream.Varint
