import PieceStream.Bytes.Basic
import PieceStream.Source.Failure

/-!
# Item streams

A stream delivers the bytes of a range of an item in order, once, in portions of the size
asked for.  Reading an empty portion means that the range has ended.
-/

namespace PieceStream

/-- An open range of an item. -/
inductive ItemStream where
  /-- The bytes left are known. -/
  | buffer (rest : Bytes)
  /-- Byte `o` of the item is `o` modulo 251; `left` bytes are left from `offset` on. -/
  | pattern (offset left : Nat)
  /-- A directory, of which at most `left` bytes may be asked. -/
  | directory (left : Nat)
  deriving DecidableEq, Repr

namespace ItemStream

/-- The failure to read a directory. -/
def directoryError : IoError := ⟨.other, "Is a directory (os error 21)"⟩

/-- An upper bound of the number of bytes left. -/
def left : ItemStream → Nat
  | .buffer rest => rest.length
  | .pattern _ left => left
  | .directory left => left

/-- The bytes `offset`, …, `offset + length - 1` modulo 251. -/
def patternBytes (offset length : Nat) : Bytes :=
  (List.range length).map fun i => UInt8.ofNat ((offset + i) % 251)

/-- Asks for at most `n` bytes. -/
def read (stream : ItemStream) (n : Nat) : Except IoError Bytes × ItemStream :=
  match stream with
  | .buffer rest => (.ok (rest.take n), .buffer (rest.drop n))
  | .pattern offset left =>
    (.ok (patternBytes offset (min n left)), .pattern (offset + min n left) (left - min n left))
  | .directory left =>
    (if min n left = 0 then .ok [] else .error directoryError, .directory left)

/-- All bytes left. -/
def readToEnd (stream : ItemStream) : Except IoError Bytes := (stream.read stream.left).1

/-- A portion is never larger than asked for. -/
theorem length_le_of_read {stream : ItemStream} {n : Nat} {bs : Bytes}
    (h : (stream.read n).1 = .ok bs) :
  bs.length ≤ n
  := by
  cases stream with
  | buffer rest =>
    cases h
    simp only [List.length_take]
    omega
  | pattern offset left =>
    cases h
    simp only [patternBytes, List.length_map, List.length_range]
    omega
  | directory left =>
    simp only [read] at h
    split at h
    · cases h
      simp
    · contradiction

/-- A stream by itself is never interrupted. -/
theorem not_isInterruption_of_read {stream : ItemStream} {n : Nat} {e : IoError}
    (h : (stream.read n).1 = .error e) :
  e.isInterruption = false
  := by
  cases stream with
  | buffer rest => contradiction
  | pattern offset left => contradiction
  | directory left =>
    simp only [read] at h
    split at h
    · contradiction
    · cases h
      rfl

end ItemStream

end PieceStream
