import PieceStream.Bytes.Basic

/-!
# Hexadecimal form

Two lower-case digits for each byte and nothing between them; upper-case digits are read
as well.  `ofHex?_toHex` says that what is written is read back.
-/

namespace PieceStream

namespace Hex

/-- The digit of `n`, for `n` below 16. -/
def digit (n : Nat) : Char :=
  if n < 10 then Char.ofNat (48 + n) else Char.ofNat (87 + n)

/-- The value of a digit. -/
def value? (c : Char) : Option Nat :=
  if '0' ≤ c ∧ c ≤ '9' then some (c.toNat - 48)
  else if 'a' ≤ c ∧ c ≤ 'f' then some (c.toNat - 87)
  else if 'A' ≤ c ∧ c ≤ 'F' then some (c.toNat - 55)
  else none

theorem value?_digit {n : Nat} (h : n < 16) :
  value? (digit n) = some n
  := by
  revert n
  decide

end Hex

namespace Bytes

/-- The digits of a byte string. -/
def hexDigits : Bytes → List Char
  | [] => []
  | b :: bs => Hex.digit (b.toNat / 16) :: Hex.digit (b.toNat % 16) :: hexDigits bs

/-- The byte string that a sequence of digits writes, if it writes one. -/
def ofHexDigits? : List Char → Option Bytes
  | [] => some []
  | [_] => none
  | c :: d :: rest =>
    match Hex.value? c, Hex.value? d, ofHexDigits? rest with
    | some h, some l, some bs => some (UInt8.ofNat (16 * h + l) :: bs)
    | _, _, _ => none

/-- The hexadecimal form of a byte string. -/
def toHex (bs : Bytes) : String := String.ofList (hexDigits bs)

/-- Reads the hexadecimal form of a byte string. -/
def ofHex? (text : String) : Option Bytes := ofHexDigits? text.toList

theorem ofHexDigits?_hexDigits (bs : Bytes) :
  ofHexDigits? (hexDigits bs) = some bs
  := by
  induction bs with
  | nil => rfl
  | cons b bs ih =>
    have hb : b.toNat < 256 := b.toNat_lt
    rw [hexDigits, ofHexDigits?, Hex.value?_digit (by omega), Hex.value?_digit (by omega), ih]
    simp only [Nat.div_add_mod, UInt8.ofNat_toNat]

theorem ofHex?_toHex (bs : Bytes) :
  ofHex? (toHex bs) = some bs
  := by
  rw [ofHex?, toHex, String.toList_ofList, ofHexDigits?_hexDigits]

end Bytes

end PieceStream
