import PieceStream.Piece.Build

/-!
# Cursors

A cursor is an offset of a piece together with the block and the run entry that hold it.
After every move it is settled: no block before it reaches beyond its offset, and at the end
of the piece it stands after the last block.  What it stands on is a segment: bytes in memory
up to the end of their field, payload bytes that an item has to provide, or the end.
-/

namespace PieceStream

/-- An offset of a piece, the index of the block and the index of the entry that hold it. -/
structure Cursor where
  pos : Nat
  block : Nat
  entry : Nat
  deriving DecidableEq, Repr

/-- The rest of the payload of a run entry. -/
structure PayloadRest where
  /-- The index of the run among the blocks. -/
  block : Nat
  run : ItemRun
  /-- The index of the entry within the run. -/
  entry : Nat
  /-- The item offset of the first byte. -/
  itemOffset : Nat
  /-- The number of bytes. -/
  remaining : Nat
  deriving DecidableEq, Repr

/-- What a cursor stands on. -/
inductive Segment where
  /-- Bytes in memory, up to the end of their field. -/
  | bytes (bytes : Bytes)
  /-- Payload bytes of an item. -/
  | payload (span : PayloadRest)
  | finish
  deriving DecidableEq, Repr

/-- The path of the item. -/
def PayloadRest.path (span : PayloadRest) : String := span.run.item.path

/-- The index of the block that holds `offset`, an offset between the header and the end. -/
def Piece.blockHolding (piece : Piece) (offset : Nat) : Nat :=
  (piece.blocks.takeWhile (·.pieceOffset ≤ offset)).length - 1

namespace Cursor

/-- Passes the blocks that end at or before `pos`, of which `block` is the index of the first
and `entry` the entry reached in it.  Returns the indices of the block and entry reached and
whether a run was left behind. -/
def settleWithin (pos : Nat) : List Block → Nat → Nat → Nat × Nat × Bool
  | [], block, entry => (block, entry, false)
  | .inline b :: rest, block, entry =>
    if pos < b.endOffset then (block, entry, false) else settleWithin pos rest (block + 1) 0
  | .run r :: rest, block, entry =>
    let passed := ((r.entries.drop entry).takeWhile (·.endOffset ≤ pos)).length
    if entry + passed < r.entries.length then (block, entry + passed, false)
    else
      let (block, entry, _) := settleWithin pos rest (block + 1) 0
      (block, entry, true)

/-- Moves the indices forward to the offset, and says whether a run was left behind.  Within
the header they stay. -/
def settle (piece : Piece) (c : Cursor) : Cursor × Bool :=
  if c.pos < piece.header.length then (c, false)
  else
    let (block, entry, left) := settleWithin c.pos (piece.blocks.drop c.block) c.block c.entry
    (⟨c.pos, block, entry⟩, left)

/-- The settled cursor at an offset, found by a search over the blocks and the entries of the
block found.  Beyond the piece it is the cursor at the end. -/
def locate (piece : Piece) (offset : Nat) : Cursor :=
  if offset < piece.header.length then ⟨offset, 0, 0⟩
  else if piece.size ≤ offset then ⟨piece.size, piece.blocks.length, 0⟩
  else
    let block := piece.blockHolding offset
    let entry :=
      match piece.blocks[block]? with
      | some (.run r) => r.entryHolding offset
      | _ => 0
    (settle piece ⟨offset, block, entry⟩).1

/-- Moves `n` bytes forward, and says whether a run was left behind. -/
def advance (piece : Piece) (c : Cursor) (n : Nat) : Cursor × Bool :=
  settle piece { c with pos := c.pos + n }

/-- What the cursor stands on. -/
def segment (piece : Piece) (c : Cursor) : Segment :=
  if c.pos < piece.header.length then .bytes (piece.header.drop c.pos)
  else
    match piece.blocks[c.block]? with
    | some (.inline b) =>
      match b.bytesAt? c.pos with
      | some bytes => .bytes bytes
      | none => .finish
    | some (.run r) =>
      match r.entries[c.entry]? with
      | some e =>
        match e.toFraming.bytesAt? c.pos with
        | some framing => .bytes framing
        | none =>
          .payload ⟨c.block, r, c.entry, e.itemOffset + (c.pos - e.payloadOffset),
            e.endOffset - c.pos⟩
      | none => .finish
    | none => .finish

/-- A segment in memory holds at least one byte. -/
theorem ne_nil_of_segment {piece : Piece} {c : Cursor} {bs : Bytes}
    (h : c.segment piece = .bytes bs) :
  bs ≠ []
  := by
  unfold segment at h
  split at h
  · cases h
    simp only [ne_eq, List.drop_eq_nil_iff]
    omega
  · split at h
    · split at h
      · next hb =>
        cases h
        exact InlineBlock.ne_nil_of_bytesAt? hb
      · contradiction
    · split at h
      · split at h
        · next hf =>
          cases h
          exact Framing.ne_nil_of_bytesAt? hf
        · contradiction
      · contradiction
    · contradiction

end Cursor

end PieceStream
