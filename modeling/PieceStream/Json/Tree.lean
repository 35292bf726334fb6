import PieceStream.Json.Token

/-!
# From tokens to trees

The tokens are read one by one.  What is open is kept in a list of frames, innermost first,
and the place says what may come next.  A token that may not come next, or the end of the
tokens, leaves `Json.broken` in its place.
-/

namespace PieceStream.Json

/-- An open array or object that waits for a value; what precedes the value is in reverse. -/
inductive Frame where
  | array (before : List Json)
  | object (before : List (Key × Json)) (key : Key)

/-- What may come next within the innermost open array or object. -/
inductive Place where
  /-- A value. -/
  | value
  /-- The first element of an array, or its end. -/
  | firstElement
  /-- A comma after these elements, or the end of the array. -/
  | afterElement (before : List Json)
  /-- The first key of an object, or its end. -/
  | firstKey
  /-- The key after these members. -/
  | laterKey (before : List (Key × Json))
  /-- The colon after a key. -/
  | colon (before : List (Key × Json)) (key : Key)
  /-- A comma after these members, or the end of the object. -/
  | afterMember (before : List (Key × Json))

/-- What a token leads to: more to read, or the whole value. -/
inductive Step where
  | more (place : Place) (frames : List Frame)
  | done (value : Json)

/-- The value of a frame in which the text breaks off at `value`. -/
def Frame.cutAt (value : Json) : Frame → Json
  | .array before => .array (value :: before).reverse
  | .object before key => .object ((key, value) :: before).reverse

/-- The text breaks off where a value belongs. -/
def breakOff (frames : List Frame) : Step :=
  .done (frames.foldl Frame.cutAt .broken)

/-- A value is complete. -/
def complete (value : Json) : List Frame → Step
  | [] => .done value
  | .array before :: frames => .more (.afterElement (value :: before)) frames
  | .object before key :: frames => .more (.afterMember ((key, value) :: before)) frames

/-- A value begins. -/
def beginValue (token : Token) (frames : List Frame) : Step :=
  match token with
  | .null => complete .null frames
  | .bool b => complete (.bool b) frames
  | .number n => complete (.number n) frames
  | .string s => complete (.string s) frames
  | .unpaired => complete .unpaired frames
  | .openArray => .more .firstElement frames
  | .openObject => .more .firstKey frames
  | _ => breakOff frames

/-- A key begins. -/
def beginKey (before : List (Key × Json)) (token : Token) (frames : List Frame) : Step :=
  match token with
  | .string s => .more (.colon before (.text s)) frames
  | .unpaired => .more (.colon before .unpaired) frames
  | .number n =>
    breakOff (.object before (if n.exceedsDouble then .broken else .misplaced) :: frames)
  | .null | .bool _ | .openArray | .openObject => breakOff (.object before .misplaced :: frames)
  | _ => breakOff (.object before .broken :: frames)

/-- What the next token leads to. -/
def step (token : Token) (place : Place) (frames : List Frame) : Step :=
  match place, token with
  | .value, t => beginValue t frames
  | .firstElement, .closeArray => complete (.array []) frames
  | .firstElement, t => beginValue t (.array [] :: frames)
  | .afterElement before, .closeArray => complete (.array before.reverse) frames
  | .afterElement before, .comma => .more .value (.array before :: frames)
  | .afterElement before, _ => breakOff (.array before :: frames)
  | .firstKey, .closeObject => complete (.object []) frames
  | .firstKey, t => beginKey [] t frames
  | .laterKey before, t => beginKey before t frames
  | .colon before key, .colon => .more .value (.object before key :: frames)
  | .colon before key, _ => breakOff (.object before key :: frames)
  | .afterMember before, .closeObject => complete (.object before.reverse) frames
  | .afterMember before, .comma => .more (.laterKey before) frames
  | .afterMember before, _ => breakOff (.object before .broken :: frames)

/-- Reads one value and returns it with the tokens after it. -/
def readTokens : List Token → Place → List Frame → Json × List Token
  | [], place, frames =>
    match step .bad place frames with
    | .done value => (value, [])
    | .more _ _ => (.broken, [])
  | token :: rest, place, frames =>
    match step token place frames with
    | .done value => (value, rest)
    | .more place frames => readTokens rest place frames

/-- A text as a whole: the value it begins with, and whether that is all. -/
structure Document where
  value : Json
  ends : Bool

/-- The document that a text describes. -/
def Document.ofText (text : String) : Document :=
  let (value, rest) := readTokens (Token.scan text.toList) .value []
  ⟨value, rest.isEmpty⟩

end PieceStream.Json
