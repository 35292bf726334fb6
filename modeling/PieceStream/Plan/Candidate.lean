import PieceStream.Bytes.Varint
import PieceStream.Source.Item

/-!
# Plans

A plan describes a piece before anything about it has been checked: the header, the declared
size and one candidate for every block.  Each candidate declares where it stands and how long
it is.  The constructors compute the declared length from the parts; sums stop at the largest
word instead of wrapping.
-/

namespace PieceStream

/-- Where the payload of a candidate comes from. -/
inductive BlockData where
  /-- The payload is given. -/
  | inline (payload : Bytes)
  /-- The payload is the range of `length` bytes of an item that starts at `offset`. -/
  | item (source : Option SourceId) (item : Option Item) (offset length : UInt64)
  deriving DecidableEq, Repr

/-- A block as a plan declares it. -/
structure Candidate where
  pieceOffset : UInt64
  /-- The declared length of prefix, identifier and payload together. -/
  length : UInt64
  lengthPrefix : Bytes
  identifier : Bytes
  data : BlockData
  deriving DecidableEq, Repr

/-- A description of a piece that has not been checked. -/
structure Plan where
  header : Bytes
  pieceSize : UInt64
  candidates : List Candidate
  deriving DecidableEq, Repr

/-- The number of payload bytes. -/
def BlockData.payloadLength : BlockData → Nat
  | .inline payload => payload.length
  | .item _ _ _ length => length.toNat

namespace Candidate

/-- A candidate whose declared length is that of its parts. -/
def ofData (pieceOffset : UInt64) (lengthPrefix identifier : Bytes) (data : BlockData) :
    Candidate :=
  let length := lengthPrefix.length + identifier.length + data.payloadLength
  ⟨pieceOffset, saturate length, lengthPrefix, identifier, data⟩

/-- A candidate with a given payload. -/
def inline (pieceOffset : UInt64) (lengthPrefix identifier payload : Bytes) : Candidate :=
  ofData pieceOffset lengthPrefix identifier (.inline payload)

/-- A candidate whose payload is a range of an item. -/
def item (pieceOffset : UInt64) (lengthPrefix identifier : Bytes) (source : SourceId)
    (item : Item) (itemOffset itemLength : UInt64) : Candidate :=
  ofData pieceOffset lengthPrefix identifier (.item (some source) (some item) itemOffset itemLength)

/-- The varint that announces an identifier and a payload. -/
def announce (identifierLength payloadLength : Nat) : Bytes :=
  Varint.encode (saturate (identifierLength + payloadLength))

/-- A candidate with a given payload whose prefix announces what follows it. -/
def delimitedInline (pieceOffset : UInt64) (identifier payload : Bytes) : Candidate :=
  inline pieceOffset (announce identifier.length payload.length) identifier payload

/-- A candidate with a range of an item whose prefix announces what follows it. -/
def delimitedItem (pieceOffset : UInt64) (identifier : Bytes) (source : SourceId) (it : Item)
    (itemOffset itemLength : UInt64) : Candidate :=
  item pieceOffset (announce identifier.length itemLength.toNat) identifier source it itemOffset
    itemLength

/-- The offset after the last byte, at most the largest word. -/
def endOffset (c : Candidate) : UInt64 := saturate (c.pieceOffset.toNat + c.length.toNat)

/-- Whether the payload is given. -/
def isInline (c : Candidate) : Bool :=
  match c.data with
  | .inline _ => true
  | .item _ _ _ _ => false

end Candidate

end PieceStream
