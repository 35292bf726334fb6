import PieceStream.Json.Decoding

/-!
# Items

An item is a byte string that some source holds under a path.  Sources and items are known
by numbers.
-/

namespace PieceStream

/-- The identity of a source. -/
structure SourceId where
  number : UInt64
  deriving DecidableEq, Repr

/-- The identity of an item. -/
structure ItemId where
  number : UInt64
  deriving DecidableEq, Repr

/-- What is known of an item in advance: its path within its source and its declared size. -/
structure Item where
  id : ItemId
  path : String
  size : UInt64
  deriving DecidableEq, Repr

/-- The name of a source in messages. -/
def SourceId.label (id : SourceId) : String := "source#" ++ toString id.number.toNat

/-- The name of an item in messages. -/
def ItemId.label (id : ItemId) : String := "item#" ++ toString id.number.toNat

/-! ### JSON form -/

namespace SourceId

/-- A source is written as its number. -/
def toJson (id : SourceId) : Json := .ofNat id.number.toNat

/-- Reads the number of a source. -/
def ofJson (json : Json) : Except Json.Fault SourceId := SourceId.mk <$> json.word

end SourceId

namespace Item

/-- An item is written as a record. -/
def toJson (item : Item) : Json :=
  .ofMembers [("id", .ofNat item.id.number.toNat), ("path", .string item.path),
    ("size", .ofNat item.size.toNat)]

/-- The fields of an item that have been read. -/
structure Draft where
  id : Option UInt64
  path : Option String
  size : Option UInt64

/-- The fields of an item. -/
def fields : List (Json.Field Draft) :=
  [⟨"id", false, (·.id.isSome), fun json draft => do
      return { draft with id := some (← json.word) }⟩,
    ⟨"path", false, (·.path.isSome), fun json draft => do
      return { draft with path := some (← json.text) }⟩,
    ⟨"size", false, (·.size.isSome), fun json draft => do
      return { draft with size := some (← json.word) }⟩]

/-- Reads an item. -/
def ofJson (origin : Json.Origin) (json : Json) : Except Json.Fault Item := do
  let draft ← Json.record origin fields ⟨none, none, none⟩ json
  let id ← Json.required "id" draft.id
  let path ← Json.required "path" draft.path
  let size ← Json.required "size" draft.size
  return ⟨⟨id⟩, path, size⟩

end Item

end PieceStream
