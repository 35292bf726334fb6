import PieceStream.Piece.Build
import PieceStream.Reading.Failure

/-!
# Notes

A note records what the library does, for those who want to know.  It is written as its
level, its message and its fields.
-/

namespace PieceStream

/-- Whether a reader waits for its sources or is suspended until they are ready. -/
inductive Manner where
  | blocking
  | suspending
  deriving DecidableEq, Repr

/-- Something the library did. -/
inductive Note where
  /-- A plan became a piece. -/
  | built (size header blocks runs : Nat)
  /-- A reader opens a stream. -/
  | opening (manner : Manner) (source : SourceId) (path : String) (itemOffset length : Nat)
  /-- A source on disk opens a file. -/
  | openingFile (file : String) (offset length : Nat)
  /-- A reader passes over bytes that it does not need. -/
  | skipping (path : String) (position gap : Nat)
  /-- A reader gives its stream up. -/
  | releasing (block itemPos : Nat)
  | readFailed (manner : Manner) (position : Nat) (error : ReadError)
  | repositioned (manner : Manner) (offset : Nat)
  deriving DecidableEq, Repr

/-- The note on building a piece. -/
def Piece.note (piece : Piece) : Note :=
  .built piece.size piece.header.length piece.blocks.length piece.runCount

namespace Note

/-- The level of a note. -/
def level : Note → String
  | .skipping _ _ _ => "TRACE"
  | .readFailed _ _ _ => "WARN"
  | _ => "DEBUG"

/-- How messages speak of readers of a manner. -/
def epithet : Manner → String
  | .blocking => ""
  | .suspending => "async "

/-- The message of a note. -/
def message : Note → String
  | .built _ _ _ _ => "built piece layout"
  | .opening manner _ _ _ _ => "opening " ++ epithet manner ++ "item stream"
  | .openingFile _ _ _ => "opening item range"
  | .skipping _ _ _ => "skipping forward in item stream"
  | .releasing _ _ => "releasing item stream"
  | .readFailed manner _ _ => epithet manner ++ "piece read failed"
  | .repositioned manner _ => "repositioned " ++ epithet manner ++ "piece reader"

/-- The fields of a note, in order. -/
def fields : Note → List (String × String)
  | .built size header blocks runs =>
    [("size", toString size), ("header", toString header), ("blocks", toString blocks),
      ("item_runs", toString runs)]
  | .opening _ source path itemOffset length =>
    [("source", source.label), ("path", path), ("item_offset", toString itemOffset),
      ("length", toString length)]
  | .openingFile file offset length =>
    [("file", file), ("offset", toString offset), ("length", toString length)]
  | .skipping path position gap =>
    [("path", path), ("from", toString position), ("gap", toString gap)]
  | .releasing block itemPos => [("block", toString block), ("item_pos", toString itemPos)]
  | .readFailed _ position error => [("position", toString position), ("error", error.message)]
  | .repositioned _ offset => [("offset", toString offset)]

/-- The line that a note is written as. -/
def line (note : Note) : String :=
  note.fields.foldl (fun text (name, value) => text ++ " " ++ name ++ "=" ++ value)
    (note.level ++ " " ++ note.message)

end Note

end PieceStream
