import PieceStream.Source.Stream

/-!
# Sources in memory

A source in memory maps paths to byte strings.
-/

namespace PieceStream

/-- A source whose items are held in memory. -/
structure MemorySource where
  items : List (String × Bytes)
  deriving DecidableEq, Repr

namespace MemorySource

/-- The source without items. -/
def empty : MemorySource := ⟨[]⟩

/-- The bytes of the item at `path`. -/
def get? (source : MemorySource) (path : String) : Option Bytes := source.items.lookup path

/-- The number of items. -/
def size (source : MemorySource) : Nat := source.items.length

/-- Whether there are no items. -/
def isEmpty (source : MemorySource) : Bool := source.items.isEmpty

/-- Adds or replaces the item at `path`. -/
def insert (source : MemorySource) (path : String) (data : Bytes) : MemorySource :=
  ⟨(path, data) :: source.items.filter (·.1 != path)⟩

/-- The source with these items; of two at the same path the later counts. -/
def ofList (items : List (String × Bytes)) : MemorySource :=
  items.foldl (fun source (path, data) => source.insert path data) empty

/-- Opens at most `length` bytes of an item from `offset` on; the item's end cuts the range. -/
def openRange (source : MemorySource) (path : String) (offset length : Nat) :
    Except SourceError ItemStream :=
  match source.get? path with
  | none => .error (.itemNotFound path)
  | some data =>
    if data.length < offset then .error (.rangeOutOfBounds path offset data.length)
    else .ok (.buffer ((data.take (min (offset + length) data.length)).drop offset))

/-- A range of an item is opened unless it starts beyond the end. -/
theorem openRange_eq {source : MemorySource} {path : String} {data : Bytes} {offset length : Nat}
    (h : source.get? path = some data) :
  source.openRange path offset length
    = if data.length < offset then .error (.rangeOutOfBounds path offset data.length)
      else .ok (.buffer ((data.drop offset).take length))
  := by
  rw [openRange, h]
  dsimp only
  split
  · rfl
  · have hlength : min (offset + length) data.length - offset
        = min length (data.drop offset).length := by
      rw [List.length_drop]
      omega
    rw [List.drop_take, hlength, ← List.take_take, List.take_length]

end MemorySource

end PieceStream
