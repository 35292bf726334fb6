import PieceStream.Bytes.Base64
import PieceStream.Json.Tree

/-!
# Reading values of known types

A value of a known type is read from a tree in the order of the text, so that of two faults
the first is reported.  A tree has either just been read from a text or been held before; an
array with too many elements is malformed in the former case and of a wrong length in the
latter.
-/

namespace PieceStream.Json

/-- How a well-formed value fails to be of the expected type. -/
inductive Misfit where
  | invalidType
  | invalidValue
  | invalidLength (length : Nat)
  | missingField (name : String)
  | duplicateField (name : String)
  | unknownVariant (name : String)
  | base64 (flaw : Base64.Flaw)
  deriving DecidableEq, Repr

/-- Why a value could not be read. -/
inductive Fault where
  /-- The text is not JSON. -/
  | malformed
  /-- The text is JSON of another type. -/
  | misfit (reason : Misfit)
  deriving DecidableEq, Repr

/-- The part of a message before its details. -/
def headline : List Char → List Char
  | [] => []
  | ':' :: ' ' :: _ => []
  | ',' :: ' ' :: 'e' :: 'x' :: 'p' :: 'e' :: 'c' :: 't' :: 'e' :: 'd' :: _ => []
  | c :: rest => c :: headline rest

/-- The wording of a misfit. -/
def Misfit.message : Misfit → String
  | .invalidType => "invalid type"
  | .invalidValue => "invalid value"
  | .invalidLength length => "invalid length " ++ toString length
  | .missingField name => "missing field `" ++ name ++ "`"
  | .duplicateField name => "duplicate field `" ++ name ++ "`"
  | .unknownVariant name =>
    String.ofList (headline ("unknown variant `" ++ name ++ "`").toList)
  | .base64 flaw => flaw.message

/-- Where a tree comes from. -/
inductive Origin where
  /-- It has just been read from a text. -/
  | text
  /-- It was held before it is judged. -/
  | held
  deriving DecidableEq, Repr

/-- A misfit as an outcome. -/
def reject {α : Type} (reason : Misfit) : Except Fault α := .error (.misfit reason)

/-- The outcome of reading a value of another type. -/
def mistyped {α : Type} : Json → Except Fault α
  | .number n => if n.exceedsDouble then .error .malformed else reject .invalidType
  | .unpaired | .broken => .error .malformed
  | _ => reject .invalidType

/-! ### Scalars -/

/-- Reads a word: an integer that is not negative and below the word limit.  Beyond the
signed 64-bit range, and for negative zero, a number is no integer. -/
def word : Json → Except Fault UInt64
  | .number n =>
    if n.integral then
      if n.negative then
        if 0 < n.significand ∧ n.significand ≤ wordLimit / 2 then reject .invalidValue
        else mistyped (.number n)
      else if n.significand < wordLimit then .ok (UInt64.ofNat n.significand)
      else mistyped (.number n)
    else mistyped (.number n)
  | json => mistyped json

/-- Reads a string. -/
def text : Json → Except Fault String
  | .string s => .ok s
  | json => mistyped json

/-- Reads a byte string in base64 form. -/
def bytes (json : Json) : Except Fault Bytes := do
  match Base64.decode (← text json) with
  | .ok bs => return bs
  | .error flaw => reject (.base64 flaw)

/-- Reads a value or null. -/
def optional {α : Type} (read : Json → Except Fault α) : Json → Except Fault (Option α)
  | .null => .ok none
  | json => some <$> read json

/-- Reads the elements of an array. -/
def elements {α : Type} (read : Json → Except Fault α) : Json → Except Fault (List α)
  | .array values => values.mapM read
  | json => mistyped json

/-! ### Records

A record is read from an object or, in the order of its fields, from an array.  What has
been read of it is a draft.
-/

/-- A field of a record whose draft is a `δ`. -/
structure Field (δ : Type) where
  name : String
  /-- Whether the field may be missing from an array. -/
  hasDefault : Bool
  /-- Whether the draft holds the field. -/
  isFilled : δ → Bool
  /-- Reads the field into the draft. -/
  fill : Json → δ → Except Fault δ

/-- Reads members into a draft.  A member that is no field has to be well-formed. -/
def fillMembers {δ : Type} (fields : List (Field δ)) :
    List (Key × Json) → δ → Except Fault δ
  | [], draft => .ok draft
  | (.text name, value) :: rest, draft =>
    match fields.find? (·.name == name) with
    | none => if value.wellFormed then fillMembers fields rest draft else .error .malformed
    | some field => do
      if field.isFilled draft then reject (.duplicateField name)
      fillMembers fields rest (← field.fill value draft)
  | _ :: _, _ => .error .malformed

/-- Reads elements into a draft, the first of which is the element at `index` of `total`. -/
def fillElements {δ : Type} (origin : Origin) (index total : Nat) :
    List (Field δ) → List Json → δ → Except Fault δ
  | [], [], draft => .ok draft
  | [], _ :: _, _ =>
    match origin with
    | .text => .error .malformed
    | .held => reject (.invalidLength total)
  | field :: fields, [], draft =>
    if field.hasDefault then fillElements origin (index + 1) total fields [] draft
    else reject (.invalidLength index)
  | field :: fields, value :: rest, draft => do
    fillElements origin (index + 1) total fields rest (← field.fill value draft)

/-- Reads a record into a draft. -/
def record {δ : Type} (origin : Origin) (fields : List (Field δ)) (draft : δ) :
    Json → Except Fault δ
  | .object members => fillMembers fields members draft
  | .array values => fillElements origin 0 values.length fields values draft
  | json => mistyped json

/-- The value of a field that has to be there. -/
def required {α : Type} (name : String) : Option α → Except Fault α
  | some value => .ok value
  | none => reject (.missingField name)

/-- Reads a text as a value: the value first, then the end of the text. -/
def Document.read {α : Type} (read : Json → Except Fault α) (document : Document) :
    Except Fault α := do
  let value ← read document.value
  if document.ends then return value else .error .malformed

end PieceStream.Json
