import PieceStream.Bytes.Basic
import PieceStream.Source.Item

/-!
# Blocks

A block is a length prefix, an identifier and a payload, one after the other, from a known
offset of the piece on.  Prefix and identifier, the framing, are always in memory.  The
payload of an inline block is in memory as well; the payloads of an item run are ranges of
one item.  All offsets but the first are computed from the lengths.
-/

namespace PieceStream

/-- The prefix and the identifier of a block, and where the block starts. -/
structure Framing where
  pieceOffset : Nat
  lengthPrefix : Bytes
  identifier : Bytes
  deriving DecidableEq, Repr

/-- Where the parts of a block lie. -/
structure Layout extends Framing where
  payloadLength : Nat
  deriving DecidableEq, Repr

/-- A block whose payload is in memory. -/
structure InlineBlock extends Framing where
  payload : Bytes
  deriving DecidableEq, Repr

/-- A block whose payload is the range of `itemLength` bytes of an item from `itemOffset` on. -/
structure RunEntry extends Framing where
  itemOffset : Nat
  itemLength : Nat
  deriving DecidableEq, Repr

/-- Consecutive blocks whose payloads are ranges of one item; there is at least one. -/
structure ItemRun where
  source : SourceId
  item : Item
  first : RunEntry
  others : List RunEntry
  deriving DecidableEq, Repr

/-- A block of a piece, or several that share an item. -/
inductive Block where
  | inline (block : InlineBlock)
  | run (run : ItemRun)
  deriving DecidableEq, Repr

namespace Framing

/-- Where the identifier starts. -/
def identifierOffset (f : Framing) : Nat := f.pieceOffset + f.lengthPrefix.length

/-- Where the payload starts. -/
def payloadOffset (f : Framing) : Nat := f.identifierOffset + f.identifier.length

/-- The framing from `pos` to the end of the prefix or identifier that holds `pos`; nothing
if `pos` lies outside the framing. -/
def bytesAt? (f : Framing) (pos : Nat) : Option Bytes :=
  if pos < f.pieceOffset ∨ f.payloadOffset ≤ pos then none
  else if pos < f.identifierOffset then some (f.lengthPrefix.drop (pos - f.pieceOffset))
  else some (f.identifier.drop (pos - f.identifierOffset))

theorem ne_nil_of_bytesAt? {f : Framing} {pos : Nat} {bs : Bytes} (h : f.bytesAt? pos = some bs) :
  bs ≠ []
  := by
  unfold bytesAt? at h
  split at h
  · contradiction
  · split at h <;>
    · cases h
      simp only [ne_eq, List.drop_eq_nil_iff]
      simp only [payloadOffset, identifierOffset] at *
      omega

end Framing

namespace Layout

/-- Where the block ends. -/
def endOffset (l : Layout) : Nat := l.payloadOffset + l.payloadLength

/-- The number of bytes of prefix, identifier and payload together. -/
def length (l : Layout) : Nat := l.endOffset - l.pieceOffset

/-- Whether there are no bytes. -/
def isEmpty (l : Layout) : Bool := l.length == 0

end Layout

namespace InlineBlock

/-- Where the parts of the block lie. -/
def layout (b : InlineBlock) : Layout := ⟨b.toFraming, b.payload.length⟩

/-- Where the block ends. -/
def endOffset (b : InlineBlock) : Nat := b.layout.endOffset

/-- The bytes from `pos` to the end of the field that holds `pos`; nothing if `pos` lies
outside the block. -/
def bytesAt? (b : InlineBlock) (pos : Nat) : Option Bytes :=
  match b.toFraming.bytesAt? pos with
  | some framing => some framing
  | none =>
    if b.payloadOffset ≤ pos ∧ pos < b.endOffset then some (b.payload.drop (pos - b.payloadOffset))
    else none

theorem ne_nil_of_bytesAt? {b : InlineBlock} {pos : Nat} {bs : Bytes}
    (h : b.bytesAt? pos = some bs) :
  bs ≠ []
  := by
  unfold bytesAt? at h
  split at h
  · next framing hf =>
    cases h
    exact Framing.ne_nil_of_bytesAt? hf
  · split at h
    · cases h
      simp only [ne_eq, List.drop_eq_nil_iff]
      simp only [endOffset, layout, Layout.endOffset] at *
      omega
    · contradiction

end InlineBlock

namespace RunEntry

/-- Where the parts of the block lie. -/
def layout (e : RunEntry) : Layout := ⟨e.toFraming, e.itemLength⟩

/-- Where the block ends. -/
def endOffset (e : RunEntry) : Nat := e.layout.endOffset

/-- The offset in the item after the last byte of the payload. -/
def itemEnd (e : RunEntry) : Nat := e.itemOffset + e.itemLength

end RunEntry

namespace ItemRun

/-- The blocks of a run in order. -/
def entries (r : ItemRun) : List RunEntry := r.first :: r.others

/-- The run with one more block at its end. -/
def push (r : ItemRun) (entry : RunEntry) : ItemRun := { r with others := r.others ++ [entry] }

/-- Where the run starts. -/
def pieceOffset (r : ItemRun) : Nat := r.first.pieceOffset

/-- Where the run ends. -/
def endOffset (r : ItemRun) : Nat := ((r.others.getLast?).getD r.first).endOffset

/-- The index of the entry that holds `offset`, an offset within the run. -/
def entryHolding (r : ItemRun) (offset : Nat) : Nat :=
  (r.entries.takeWhile (·.pieceOffset ≤ offset)).length - 1

/-- The highest item offset that entry `index` and the entries after it need. -/
def furthestNeed (r : ItemRun) (index : Nat) : Nat :=
  (r.entries.drop index).foldl (fun high e => max high e.itemEnd) 0

end ItemRun

namespace Block

/-- Where the block starts. -/
def pieceOffset : Block → Nat
  | .inline b => b.pieceOffset
  | .run r => r.pieceOffset

/-- Where the block ends. -/
def endOffset : Block → Nat
  | .inline b => b.endOffset
  | .run r => r.endOffset

/-- The item run, if it is one. -/
def asRun? : Block → Option ItemRun
  | .inline _ => none
  | .run r => some r

/-- Whether it is an item run. -/
def isRun (b : Block) : Bool := b.asRun?.isSome

end Block

end PieceStream
