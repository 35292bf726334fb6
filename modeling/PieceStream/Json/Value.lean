/-!
# JSON values

`Json` is the tree that a text describes, its members in the order of the text.  A text that
stops being JSON still describes a tree: `Json.broken` marks the place where it stops, and
nothing after that place is in the tree.  A string literal that escapes half of a surrogate
pair is well-formed and yet has no text; it is `Json.unpaired`.
-/

namespace PieceStream

/-- A number as it is written: `significand * 10 ^ scale`, negated if `negative`.  It is
`integral` if it is written without a point and without an exponent. -/
structure Numeral where
  negative : Bool
  significand : Nat
  scale : Int
  integral : Bool
  deriving DecidableEq, Repr

/-- What stands in the place of a member's name. -/
inductive Key where
  | text (name : String)
  /-- A string literal without a text. -/
  | unpaired
  /-- A value that is no string. -/
  | misplaced
  /-- The text stops being JSON here. -/
  | broken
  deriving DecidableEq, Repr

/-- A JSON value. -/
inductive Json where
  | null
  | bool (value : Bool)
  | number (value : Numeral)
  | string (value : String)
  /-- A string literal without a text. -/
  | unpaired
  | array (elements : List Json)
  | object (members : List (Key × Json))
  /-- The text stops being JSON here. -/
  | broken

namespace Numeral

/-- The number of decimal digits, 0 for 0. -/
def digitCount (n : Nat) : Nat := if n = 0 then 0 else (Nat.toDigits 10 n).length

/-- The least magnitude that rounds beyond the largest double-precision number. -/
def doubleLimit : Nat := (1 <<< 1024) - (1 <<< 970)

/-- Whether the number lies beyond the range of double precision.  The number of digits
decides except for one order of magnitude. -/
def exceedsDouble (n : Numeral) : Bool :=
  let order := digitCount n.significand + n.scale
  if n.significand = 0 ∨ order < 309 then false
  else if 309 < order then true
  else if 0 ≤ n.scale then doubleLimit ≤ n.significand * Nat.pow 10 n.scale.toNat
  else doubleLimit * Nat.pow 10 (-n.scale).toNat ≤ n.significand

/-- The numeral of a natural number. -/
def ofNat (n : Nat) : Numeral := ⟨false, n, 0, true⟩

/-- The integer that an integral numeral writes. -/
def toInt? (n : Numeral) : Option Int :=
  if n.integral then some (if n.negative then -n.significand else n.significand) else none

end Numeral

namespace Json

/-- The number `n`. -/
def ofNat (n : Nat) : Json := .number (.ofNat n)

/-- The object with these members. -/
def ofMembers (members : List (String × Json)) : Json :=
  .object (members.map fun (name, value) => (.text name, value))

/-- The value of the first member of that name. -/
def member? (json : Json) (name : String) : Option Json :=
  match json with
  | .object members => members.lookup (.text name)
  | _ => none

mutual

/-- Whether the text of a value that nobody looks at is well-formed. -/
def wellFormed : Json → Bool
  | .array elements => wellFormedElements elements
  | .object members => wellFormedMembers members
  | .broken => false
  | _ => true

/-- Whether the texts of all elements are well-formed. -/
def wellFormedElements : List Json → Bool
  | [] => true
  | v :: rest => wellFormed v && wellFormedElements rest

/-- Whether the texts of all members are well-formed. -/
def wellFormedMembers : List (Key × Json) → Bool
  | [] => true
  | (.text _, v) :: rest => wellFormed v && wellFormedMembers rest
  | (.unpaired, v) :: rest => wellFormed v && wellFormedMembers rest
  | _ :: _ => false

end

/-- Nesting has to stay below this many levels in a value that is held before it is judged. -/
def nestingLimit : Nat := 128

mutual

/-- Whether a value can be held before it is judged.  Its strings need a text, its numbers
have to fit double precision, and its brackets, the outermost of which opens nesting level
`level`, may not nest too deeply. -/
def holdable (level : Nat) : Json → Bool
  | .number n => !n.exceedsDouble
  | .array elements => level < nestingLimit && holdableElements (level + 1) elements
  | .object members => level < nestingLimit && holdableMembers (level + 1) members
  | .unpaired | .broken => false
  | _ => true

/-- Whether all elements can be held. -/
def holdableElements (level : Nat) : List Json → Bool
  | [] => true
  | v :: rest => holdable level v && holdableElements level rest

/-- Whether all members can be held. -/
def holdableMembers (level : Nat) : List (Key × Json) → Bool
  | [] => true
  | (.text _, v) :: rest => holdable level v && holdableMembers level rest
  | _ :: _ => false

end

end Json

end PieceStream
