import PieceStream.Bytes.Basic

/-!
# Base64

The standard alphabet with mandatory padding.  Reading is strict: every symbol outside the
alphabet, misplaced or missing padding and non-zero unused bits are refused, and the
refusal names the offending byte.  The last group of four symbols, the only one that may
hold padding, is judged after all others.
-/

namespace PieceStream.Base64

/-- Why a text is not the base64 form of a byte string. -/
inductive Flaw where
  /-- A byte that is no symbol, or padding where none may stand. -/
  | symbol (byte : UInt8) (offset : Nat)
  /-- A single symbol left over at the end. -/
  | length
  /-- The last symbol sets bits that belong to no byte. -/
  | lastSymbol (byte : UInt8) (offset : Nat)
  /-- Too little padding. -/
  | padding
  deriving DecidableEq, Repr

/-- The wording of a flaw. -/
def Flaw.message : Flaw → String
  | .symbol byte offset =>
    "Invalid symbol " ++ toString byte.toNat ++ ", offset " ++ toString offset ++ "."
  | .length => "Invalid input length"
  | .lastSymbol byte offset =>
    "Invalid last symbol " ++ toString byte.toNat ++ ", offset " ++ toString offset ++ "."
  | .padding => "Invalid padding"

/-- The padding byte. -/
def pad : UInt8 := 61

/-- The symbol of a six-bit value. -/
def symbol (value : Nat) : UInt8 :=
  if value < 26 then UInt8.ofNat (65 + value)
  else if value < 52 then UInt8.ofNat (71 + value)
  else if value < 62 then UInt8.ofNat (value - 4)
  else if value = 62 then 43
  else 47

/-- The six-bit value of a symbol. -/
def value? (byte : UInt8) : Option Nat :=
  let n := byte.toNat
  if 65 ≤ n ∧ n ≤ 90 then some (n - 65)
  else if 97 ≤ n ∧ n ≤ 122 then some (n - 71)
  else if 48 ≤ n ∧ n ≤ 57 then some (n + 4)
  else if n = 43 then some 62
  else if n = 47 then some 63
  else none

/-- The symbols and the padding of a byte string. -/
def symbols : Bytes → Bytes
  | [] => []
  | [a] => [symbol (a.toNat / 4), symbol (a.toNat % 4 * 16), pad, pad]
  | [a, b] =>
    [symbol (a.toNat / 4), symbol (a.toNat % 4 * 16 + b.toNat / 16),
      symbol (b.toNat % 16 * 4), pad]
  | a :: b :: c :: rest =>
    symbol (a.toNat / 4) :: symbol (a.toNat % 4 * 16 + b.toNat / 16) ::
      symbol (b.toNat % 16 * 4 + c.toNat / 64) :: symbol (c.toNat % 64) :: symbols rest

/-- The value of the symbol at `offset`. -/
def valueAt (byte : UInt8) (offset : Nat) : Except Flaw Nat :=
  match value? byte with
  | some v => .ok v
  | none => .error (.symbol byte offset)

/-- The bytes that four values write. -/
def joinFour (a b c d : Nat) : Bytes :=
  [UInt8.ofNat (a * 4 + b / 16), UInt8.ofNat (b % 16 * 16 + c / 4), UInt8.ofNat (c % 4 * 64 + d)]

/-- The bytes of the values of an unpadded tail, whose last symbol is `last` at `offset`. -/
def joinTail (values : List Nat) (pads : Nat) (last : UInt8) (offset : Nat) : Except Flaw Bytes :=
  match values with
  | [] => if pads = 0 then .ok [] else .error .length
  | [_] => .error .length
  | [a, b] =>
    if pads ≠ 2 then .error .padding
    else if b % 16 ≠ 0 then .error (.lastSymbol last (offset + 1))
    else .ok [UInt8.ofNat (a * 4 + b / 16)]
  | [a, b, c] =>
    if pads ≠ 1 then .error .padding
    else if c % 4 ≠ 0 then .error (.lastSymbol last (offset + 2))
    else .ok [UInt8.ofNat (a * 4 + b / 16), UInt8.ofNat (b % 16 * 16 + c / 4)]
  | a :: b :: c :: d :: _ => .ok (joinFour a b c d)

/-- Judges the last group, which starts at `offset`.  `index` symbols of it have been read:
`values` are the values among them, `last` the last symbol and `pads` the number of padding
bytes after it. -/
def decodeTail (offset : Nat) (values : List Nat) (last : UInt8) (pads : Nat) :
    Bytes → Except Flaw Bytes
  | [] => joinTail values pads last offset
  | b :: rest =>
    let index := values.length + pads
    if b = pad then
      if index < 2 then .error (.symbol b (offset + index))
      else decodeTail offset values last (pads + 1) rest
    else if 0 < pads then .error (.symbol pad (offset + values.length))
    else
      match valueAt b (offset + index) with
      | .error flaw => .error flaw
      | .ok v => decodeTail offset (values ++ [v]) b 0 rest

/-- Reads groups of four; the last group, complete or not, may hold padding. -/
def decodeGroups (offset : Nat) : Bytes → Except Flaw Bytes
  | a :: b :: c :: d :: e :: rest => do
    let va ← valueAt a offset
    let vb ← valueAt b (offset + 1)
    let vc ← valueAt c (offset + 2)
    let vd ← valueAt d (offset + 3)
    let tail ← decodeGroups (offset + 4) (e :: rest)
    return joinFour va vb vc vd ++ tail
  | tail => decodeTail offset [] pad 0 tail

/-- A stray byte after complete groups is blamed before anything else, unless it is padding
or a symbol. -/
def strayByte? (text : Bytes) : Option Flaw :=
  match text.getLast? with
  | some b =>
    if text.length % 4 = 1 ∧ b ≠ pad ∧ value? b = none
    then some (.symbol b (text.length - 1)) else none
  | none => none

/-- The bytes that the symbols write. -/
def decodeSymbols (text : Bytes) : Except Flaw Bytes :=
  match strayByte? text with
  | some flaw => .error flaw
  | none => decodeGroups 0 text

/-- The base64 form of a byte string. -/
def encode (bs : Bytes) : String :=
  String.ofList ((symbols bs).map fun b => Char.ofNat b.toNat)

/-- Reads the base64 form of a byte string; offsets in a flaw count the bytes of the text. -/
def decode (text : String) : Except Flaw Bytes :=
  decodeSymbols text.toUTF8.toList

end PieceStream.Base64
