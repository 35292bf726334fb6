import PieceStream.Piece.Build

/-!
# The content of a piece

The content of a piece is its header and, block by block, prefix, identifier and payload.  The
payloads of item runs are taken from the items.
-/

namespace PieceStream

/-- The bytes of every item, by source and path. -/
abbrev Store := SourceId → String → Bytes

/-- The bytes of the item of a run. -/
def ItemRun.data (r : ItemRun) (store : Store) : Bytes := store r.source r.item.path

/-- The bytes of the block of an entry, whose item is `data`. -/
def RunEntry.content (e : RunEntry) (data : Bytes) : Bytes :=
  e.lengthPrefix ++ e.identifier ++ (data.drop e.itemOffset).take e.itemLength

/-- The bytes of an inline block. -/
def InlineBlock.content (b : InlineBlock) : Bytes := b.lengthPrefix ++ b.identifier ++ b.payload

/-- The bytes of a block. -/
def Block.content (store : Store) : Block → Bytes
  | .inline b => b.content
  | .run r => r.entries.flatMap fun e => e.content (r.data store)

namespace Piece

/-- The bytes of a piece. -/
def content (piece : Piece) (store : Store) : Bytes :=
  piece.header ++ piece.blocks.flatMap (Block.content store)

/-- The items hold all bytes that the entries need. -/
def HeldIn (piece : Piece) (store : Store) : Prop :=
  ∀ {r}, .run r ∈ piece.blocks → ∀ e ∈ r.entries,
    0 < e.itemLength → e.itemEnd ≤ (r.data store).length

end Piece

end PieceStream
