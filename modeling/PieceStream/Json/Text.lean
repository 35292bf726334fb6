import PieceStream.Bytes.Hex
import PieceStream.Json.Value

/-!
# The text of a JSON value

Values are written without blanks, members in their order.  In strings only the quote, the
backslash and the control characters below the blank are escaped.
-/

namespace PieceStream.Json

/-- The characters that stand for `c` in a string literal. -/
def escape (c : Char) : List Char :=
  match c with
  | '"' => ['\\', '"']
  | '\\' => ['\\', '\\']
  | '\x08' => ['\\', 'b']
  | '\x0c' => ['\\', 'f']
  | '\n' => ['\\', 'n']
  | '\r' => ['\\', 'r']
  | '\t' => ['\\', 't']
  | c =>
    if c < ' ' then ['\\', 'u', '0', '0', Hex.digit (c.toNat / 16), Hex.digit (c.toNat % 16)]
    else [c]

/-- The literal of a string. -/
def quote (text : String) : List Char :=
  '"' :: (text.toList.flatMap escape ++ ['"'])

/-- The text of a number. -/
def numeralText (n : Numeral) : List Char :=
  let sign := if n.negative then ['-'] else []
  let exponent := if n.integral then [] else 'e' :: (toString n.scale).toList
  sign ++ Nat.toDigits 10 n.significand ++ exponent

/-- The literal of a key. -/
def keyText : Key → List Char
  | .text name => quote name
  | _ => []

mutual

/-- The characters of a value's text. -/
def render : Json → List Char
  | .null => ['n', 'u', 'l', 'l']
  | .bool true => ['t', 'r', 'u', 'e']
  | .bool false => ['f', 'a', 'l', 's', 'e']
  | .number n => numeralText n
  | .string s => quote s
  | .array [] => ['[', ']']
  | .array (v :: rest) => '[' :: (render v ++ renderElements rest)
  | .object [] => ['\x7b', '\x7d']
  | .object ((k, v) :: rest) => '\x7b' :: (keyText k ++ ':' :: (render v ++ renderMembers rest))
  | .unpaired | .broken => []

/-- The elements after the first, and the end of the array. -/
def renderElements : List Json → List Char
  | [] => [']']
  | v :: rest => ',' :: (render v ++ renderElements rest)

/-- The members after the first, and the end of the object. -/
def renderMembers : List (Key × Json) → List Char
  | [] => ['\x7d']
  | (k, v) :: rest => ',' :: (keyText k ++ ':' :: (render v ++ renderMembers rest))

end

/-- The text of a value. -/
def toText (json : Json) : String := String.ofList (render json)

end PieceStream.Json
