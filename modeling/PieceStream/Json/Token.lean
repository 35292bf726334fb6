import PieceStream.Bytes.Hex
import PieceStream.Json.Value

/-!
# JSON tokens

A text is cut into tokens, blanks between them left out.  The first place that starts no
token yields `Token.bad`, and nothing after it is read.
-/

namespace PieceStream

/-- A token of a JSON text. -/
inductive Token where
  | openArray
  | closeArray
  | openObject
  | closeObject
  | colon
  | comma
  | null
  | bool (value : Bool)
  | number (value : Numeral)
  | string (value : String)
  /-- A string literal without a text. -/
  | unpaired
  /-- No token starts here. -/
  | bad
  deriving DecidableEq, Repr

namespace Token

/-! ### Numbers -/

/-- Whether a character is a decimal digit. -/
def isDigit (c : Char) : Bool := '0' ≤ c && c ≤ '9'

/-- The number that decimal digits write. -/
def digitsValue (digits : List Char) : Nat :=
  digits.foldl (fun n c => 10 * n + (c.toNat - 48)) 0

/-- Splits the leading digits off. -/
def spanDigits (cs : List Char) : List Char × List Char :=
  (cs.takeWhile isDigit, cs.dropWhile isDigit)

/-- The digits after a point, if there is one. -/
def scanFraction : List Char → Option (List Char × List Char)
  | '.' :: cs =>
    match spanDigits cs with
    | ([], _) => none
    | (digits, rest) => some (digits, rest)
  | cs => some ([], cs)

/-- An exponent without its sign. -/
def scanMagnitude (negative : Bool) (cs : List Char) : Option (Option Int × List Char) :=
  match spanDigits cs with
  | ([], _) => none
  | (digits, rest) =>
    some (some (if negative then -(digitsValue digits : Int) else digitsValue digits), rest)

/-- The exponent, if there is one. -/
def scanExponent : List Char → Option (Option Int × List Char)
  | c :: cs =>
    if c = 'e' ∨ c = 'E' then
      match cs with
      | '+' :: rest => scanMagnitude false rest
      | '-' :: rest => scanMagnitude true rest
      | rest => scanMagnitude false rest
    else some (none, c :: cs)
  | [] => some (none, [])

/-- A number after its sign: digits without an idle leading zero, a fraction, an exponent. -/
def scanUnsigned (negative : Bool) (cs : List Char) : Option (Numeral × List Char) :=
  match spanDigits cs with
  | ([], _) => none
  | ('0' :: _ :: _, _) => none
  | (whole, afterWhole) =>
    match scanFraction afterWhole with
    | none => none
    | some (fraction, afterFraction) =>
      match scanExponent afterFraction with
      | none => none
      | some (exponent, rest) =>
        some (⟨negative, digitsValue (whole ++ fraction), exponent.getD 0 - fraction.length,
          fraction.isEmpty && exponent.isNone⟩, rest)

/-- A number. -/
def scanNumber : List Char → Option (Numeral × List Char)
  | '-' :: cs => scanUnsigned true cs
  | cs => scanUnsigned false cs

/-! ### Strings -/

/-- A part of a string literal: a character, or a 16-bit unit that an escape gives. -/
inductive Part where
  | char (value : Char)
  | unit (value : Nat)
  deriving DecidableEq, Repr

/-- The character that a one-letter escape stands for. -/
def escaped? (c : Char) : Option Char :=
  match c with
  | '"' => some '"'
  | '\\' => some '\\'
  | '/' => some '/'
  | 'b' => some '\x08'
  | 'f' => some '\x0c'
  | 'n' => some '\n'
  | 'r' => some '\r'
  | 't' => some '\t'
  | _ => none

/-- The unit that four hexadecimal digits write. -/
def unit? (a b c d : Char) : Option Nat :=
  match Hex.value? a, Hex.value? b, Hex.value? c, Hex.value? d with
  | some a, some b, some c, some d => some (((a * 16 + b) * 16 + c) * 16 + d)
  | _, _, _, _ => none

/-- The parts of a literal whose opening quote has been read, and the text after it. -/
def scanParts : List Char → Option (List Part × List Char)
  | [] => none
  | '"' :: rest => some ([], rest)
  | '\\' :: 'u' :: a :: b :: c :: d :: rest =>
    match unit? a b c d, scanParts rest with
    | some u, some (parts, after) => some (.unit u :: parts, after)
    | _, _ => none
  | '\\' :: c :: rest =>
    match escaped? c, scanParts rest with
    | some e, some (parts, after) => some (.char e :: parts, after)
    | _, _ => none
  | c :: rest =>
    if c = '\\' ∨ c < ' ' then none
    else (scanParts rest).map fun (parts, after) => (.char c :: parts, after)

/-- Whether a unit is the first half of a pair. -/
def isHigh (u : Nat) : Bool := 0xd800 ≤ u && u < 0xdc00

/-- Whether a unit is the second half of a pair. -/
def isLow (u : Nat) : Bool := 0xdc00 ≤ u && u < 0xe000

/-- The characters of the parts; every half of a pair needs the other. -/
def joinParts : List Part → Option (List Char)
  | [] => some []
  | .char c :: rest => (joinParts rest).map (c :: ·)
  | .unit u :: .unit v :: rest =>
    if isHigh u then
      if isLow v then
        (joinParts rest).map (Char.ofNat (0x10000 + (u - 0xd800) * 0x400 + (v - 0xdc00)) :: ·)
      else none
    else if isLow u then none
    else (joinParts (.unit v :: rest)).map (Char.ofNat u :: ·)
  | .unit u :: rest =>
    if isHigh u || isLow u then none else (joinParts rest).map (Char.ofNat u :: ·)

/-- The token of a literal with these parts. -/
def ofParts (parts : List Part) : Token :=
  match joinParts parts with
  | some cs => .string (String.ofList cs)
  | none => .unpaired

/-! ### Texts -/

/-- Whether a character may stand between tokens. -/
def isBlank (c : Char) : Bool := c = ' ' || c = '\t' || c = '\n' || c = '\r'

/-- The token that the text begins with, and the text after it.  A blank gives no token. -/
def scanOne : List Char → Option (Option Token × List Char)
  | [] => none
  | '[' :: cs => some (some .openArray, cs)
  | ']' :: cs => some (some .closeArray, cs)
  | '\x7b' :: cs => some (some .openObject, cs)
  | '\x7d' :: cs => some (some .closeObject, cs)
  | ':' :: cs => some (some .colon, cs)
  | ',' :: cs => some (some .comma, cs)
  | 'n' :: 'u' :: 'l' :: 'l' :: cs => some (some .null, cs)
  | 't' :: 'r' :: 'u' :: 'e' :: cs => some (some (.bool true), cs)
  | 'f' :: 'a' :: 'l' :: 's' :: 'e' :: cs => some (some (.bool false), cs)
  | '"' :: cs => (scanParts cs).map fun (parts, rest) => (some (ofParts parts), rest)
  | c :: cs =>
    if isBlank c then some (none, cs)
    else (scanNumber (c :: cs)).map fun (n, rest) => (some (.number n), rest)

/-- The tokens of a text, of which at most `fuel` and blanks are read. -/
def scanWithin : Nat → List Char → List Token
  | 0, _ => []
  | _ + 1, [] => []
  | fuel + 1, cs =>
    match scanOne cs with
    | none => [.bad]
    | some (none, rest) => scanWithin fuel rest
    | some (some token, rest) => token :: scanWithin fuel rest

/-- The tokens of a text.  Each takes at least one character. -/
def scan (cs : List Char) : List Token := scanWithin cs.length cs

end Token

end PieceStream
