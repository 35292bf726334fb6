import PieceStream.Json.Text
import PieceStream.Plan.Candidate

/-!
# The JSON form of a plan

Byte strings are written in base64.  The origin of a payload is told by the member `kind`,
which may stand at any place; the other members of that object are held until the kind is
known.  The source and the item may be null or missing.
-/

namespace PieceStream

/-- A byte string is written in base64. -/
def Bytes.toJson (bs : Bytes) : Json := .string (Base64.encode bs)

namespace BlockData

/-- The origin of a payload is written with its kind first. -/
def toJson : BlockData → Json
  | .inline payload => .ofMembers [("kind", .string "inline"), ("payload", payload.toJson)]
  | .item source content offset length =>
    .ofMembers [("kind", .string "item"),
      ("source", (source.map SourceId.toJson).getD .null),
      ("item", (content.map Item.toJson).getD .null),
      ("item_offset", .ofNat offset.toNat), ("item_length", .ofNat length.toNat)]

/-- The kinds of payload origin. -/
inductive Kind where
  | inline
  | item
  deriving DecidableEq, Repr

/-- Reads a kind. -/
def Kind.ofJson (json : Json) : Except Json.Fault Kind := do
  match ← json.text with
  | "inline" => return .inline
  | "item" => return .item
  | name => Json.reject (.unknownVariant name)

/-- The fields of a given payload. -/
def inlineFields : List (Json.Field (Option Bytes)) :=
  [⟨"payload", false, (·.isSome), fun json _ => some <$> json.bytes⟩]

/-- The fields of a range of an item that have been read. -/
structure Draft where
  source : Option (Option SourceId)
  item : Option (Option Item)
  offset : Option UInt64
  length : Option UInt64

/-- The fields of a range of an item. -/
def itemFields : List (Json.Field Draft) :=
  [⟨"source", true, (·.source.isSome), fun json draft => do
      return { draft with source := some (← json.optional SourceId.ofJson) }⟩,
    ⟨"item", true, (·.item.isSome), fun json draft => do
      return { draft with item := some (← json.optional (Item.ofJson .held)) }⟩,
    ⟨"item_offset", false, (·.offset.isSome), fun json draft => do
      return { draft with offset := some (← json.word) }⟩,
    ⟨"item_length", false, (·.length.isSome), fun json draft => do
      return { draft with length := some (← json.word) }⟩]

/-- Reads the held fields of an origin of this kind. -/
def ofFields (kind : Kind) (json : Json) : Except Json.Fault BlockData := do
  match kind with
  | .inline =>
    return .inline (← Json.required "payload" (← Json.record .held inlineFields none json))
  | .item =>
    let draft ← Json.record .held itemFields ⟨none, none, none, none⟩ json
    let offset ← Json.required "item_offset" draft.offset
    let length ← Json.required "item_length" draft.length
    return .item (draft.source.getD none) (draft.item.getD none) offset length

/-- Finds the kind among members and holds the others.  `level` is the nesting level of what
the members contain. -/
def splitKind (level : Nat) (kind : Option Kind) :
    List (Key × Json) → Except Json.Fault (Option Kind × List (Key × Json))
  | [] => .ok (kind, [])
  | (.text name, value) :: rest => do
    if name = "kind" then
      if kind.isSome then Json.reject (.duplicateField "kind")
      splitKind level (some (← Kind.ofJson value)) rest
    else if value.holdable level then
      let (kind, held) ← splitKind level kind rest
      return (kind, (.text name, value) :: held)
    else .error .malformed
  | _ :: _ => .error .malformed

/-- Reads the origin of a payload, whose bracket opens nesting level `level`. -/
def ofJson (level : Nat) : Json → Except Json.Fault BlockData
  | .object members => do
    let (kind, held) ← splitKind (level + 1) none members
    ofFields (← Json.required "kind" kind) (.object held)
  | .array [] => Json.reject (.missingField "kind")
  | .array (first :: rest) => do
    let kind ← Kind.ofJson first
    if Json.holdableElements (level + 1) rest then ofFields kind (.array rest)
    else .error .malformed
  | json => json.mistyped

end BlockData

namespace Candidate

/-- A candidate is written as a record. -/
def toJson (c : Candidate) : Json :=
  .ofMembers [("piece_offset", .ofNat c.pieceOffset.toNat), ("length", .ofNat c.length.toNat),
    ("prefix", c.lengthPrefix.toJson), ("identifier", c.identifier.toJson),
    ("data", c.data.toJson)]

/-- The fields of a candidate that have been read. -/
structure Draft where
  pieceOffset : Option UInt64
  length : Option UInt64
  lengthPrefix : Option Bytes
  identifier : Option Bytes
  data : Option BlockData

/-- The nesting level of the origin of a payload within a plan. -/
def dataLevel : Nat := 4

/-- The fields of a candidate. -/
def fields : List (Json.Field Draft) :=
  [⟨"piece_offset", false, (·.pieceOffset.isSome), fun json draft => do
      return { draft with pieceOffset := some (← json.word) }⟩,
    ⟨"length", false, (·.length.isSome), fun json draft => do
      return { draft with length := some (← json.word) }⟩,
    ⟨"prefix", false, (·.lengthPrefix.isSome), fun json draft => do
      return { draft with lengthPrefix := some (← json.bytes) }⟩,
    ⟨"identifier", false, (·.identifier.isSome), fun json draft => do
      return { draft with identifier := some (← json.bytes) }⟩,
    ⟨"data", false, (·.data.isSome), fun json draft => do
      return { draft with data := some (← BlockData.ofJson dataLevel json) }⟩]

/-- Reads a candidate. -/
def ofJson (origin : Json.Origin) (json : Json) : Except Json.Fault Candidate := do
  let draft ← Json.record origin fields ⟨none, none, none, none, none⟩ json
  let pieceOffset ← Json.required "piece_offset" draft.pieceOffset
  let length ← Json.required "length" draft.length
  let lengthPrefix ← Json.required "prefix" draft.lengthPrefix
  let identifier ← Json.required "identifier" draft.identifier
  let data ← Json.required "data" draft.data
  return ⟨pieceOffset, length, lengthPrefix, identifier, data⟩

end Candidate

namespace Plan

/-- A plan is written as a record. -/
def toJson (plan : Plan) : Json :=
  .ofMembers [("header", plan.header.toJson), ("piece_size", .ofNat plan.pieceSize.toNat),
    ("blocks", .array (plan.candidates.map Candidate.toJson))]

/-- The fields of a plan that have been read. -/
structure Draft where
  header : Option Bytes
  pieceSize : Option UInt64
  candidates : Option (List Candidate)

/-- The fields of a plan. -/
def fields (origin : Json.Origin) : List (Json.Field Draft) :=
  [⟨"header", false, (·.header.isSome), fun json draft => do
      return { draft with header := some (← json.bytes) }⟩,
    ⟨"piece_size", false, (·.pieceSize.isSome), fun json draft => do
      return { draft with pieceSize := some (← json.word) }⟩,
    ⟨"blocks", false, (·.candidates.isSome), fun json draft => do
      return { draft with candidates := some (← json.elements (Candidate.ofJson origin)) }⟩]

/-- Reads a plan. -/
def ofJson (origin : Json.Origin) (json : Json) : Except Json.Fault Plan := do
  let draft ← Json.record origin (fields origin) ⟨none, none, none⟩ json
  let header ← Json.required "header" draft.header
  let pieceSize ← Json.required "piece_size" draft.pieceSize
  let candidates ← Json.required "blocks" draft.candidates
  return ⟨header, pieceSize, candidates⟩

/-- The text of a plan. -/
def toText (plan : Plan) : String := plan.toJson.toText

/-- Reads the text of a plan. -/
def ofText (text : String) : Except Json.Fault Plan :=
  (Json.Document.ofText text).read (Plan.ofJson .text)

end Plan

end PieceStream
